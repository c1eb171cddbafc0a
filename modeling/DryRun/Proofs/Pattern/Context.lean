import DryRun.Proofs.Pattern.Groups
import DryRun.Proofs.Text

/-!
# Matching inside a larger text

A text stands inside a larger one: behind `before`, nearest character first, and in front of a mark
and `after`.  A pattern is `Local` there if it matches in the text in the same ways as if the text
stood alone.  One that rejects the mark is (`local_of_rejects`), because it cannot look past it.  A
search with a local pattern finds in the text what it would find there alone, and then goes on at the
mark (`findFrom_within`).
-/

namespace DryRun

/-! ### Places of the larger text -/

/-- A place of a text as a place of the larger text. -/
def Cursor.within (before after : Text) (c : Cursor) : Cursor :=
  .between (c.seen ++ before) (c.rest ++ after)

/-- A stretch of a text as a stretch of the larger text. -/
def Span.within (before after : Text) (s : Span) : Span :=
  ⟨s.start.within before after, s.stop.within before after⟩

/-- The groups remembered in a text as stretches of the larger text. -/
def groupsWithin (before after : Text) (g : List (Nat × Span)) : List (Nat × Span) :=
  g.map fun (n, s) => (n, s.within before after)

/-- A match in a text as a match in the larger text. -/
def Match.within (before after : Text) (m : Match) : Match :=
  ⟨m.span.within before after, groupsWithin before after m.groups⟩

/-- How far matching has come in a text, seen from the larger text. -/
def Pattern.Progress.within (before after : Text) (s : Pattern.Progress) : Pattern.Progress :=
  ⟨s.cursor.within before after, groupsWithin before after s.groups⟩

variable {before after seen u v w rest : Text} {g g' : List (Nat × Span)} {mark q : Char}

theorem Cursor.within_between :
    (Cursor.between seen rest).within before after =
      Cursor.between (seen ++ before) (rest ++ after) := rfl

theorem Span.within_of :
    (Span.of seen w rest).within before after = Span.of (seen ++ before) w (rest ++ after) := by
  simp [Span.of, Span.within, Cursor.within_between]

namespace Pattern

open Cursor

theorem group?_within {p : Pattern} (h : Takes p seen w rest [] g) (n : Nat) :
    ((matchOf seen w rest g).within before after).group? n = (matchOf seen w rest g).group? n := by
  have hg : ∀ x ∈ g, ∃ seen w rest, x.2 = Span.of seen w rest := by
    intro x hx
    obtain ⟨_, seen, w, rest, -, -, -, hspan⟩ := (exists_of_mem_groups h x hx).resolve_left (by simp)
    exact ⟨seen, w, rest, hspan⟩
  clear h
  simp only [Match.group?, Match.groupSpan?, Match.within, matchOf, groupsWithin]
  induction g with
  | nil => rfl
  | cons x g ih =>
    obtain ⟨k, s⟩ := x
    obtain ⟨seen', w', rest', rfl⟩ := hg (k, s) (by simp)
    simp only [List.map_cons, List.lookup_cons]
    cases n == k with
    | true => simp [Span.within_of]
    | false => exact ih fun x hx => hg x (by simp [hx])

/-! ### Local patterns -/

/-- Whether a pattern matches in texts without the mark as if they stood alone, when they stand
between `before` and the mark. -/
def Local (mark : Char) (before after : Text) (p : Pattern) : Prop :=
  ∀ s : Progress, mark ∉ s.cursor.rest →
    outcomes p (s.within before (mark :: after)) =
      (outcomes p s).map (·.within before (mark :: after))

/-- Whether a pattern takes no text with the mark in it.  Asking for the start of a line is left out
as well, because a line may begin before the text. -/
def rejects (mark : Char) : Pattern → Bool
  | empty | wordBoundary => true
  | one p | many p | fewest p => !p mark
  | seq p q | alt p q => rejects mark p && rejects mark q
  | group _ p => rejects mark p
  | lineStart => false

theorem rest_of_mem_outcomes {p : Pattern} {s t : Progress} (h : t ∈ outcomes p s) :
    t.cursor.rest <:+ s.cursor.rest := by
  obtain ⟨c, g⟩ := s
  rw [eq_between c] at h
  obtain ⟨w, rest, g', hr, rfl, -⟩ := mem_outcomes_iff.1 h
  exact ⟨w, hr.symm⟩

theorem Local.append {p q : Pattern} (hp : Local mark before after p)
    (hq : Local mark before after q) : Local mark before after (p ++ q) := by
  intro s hs
  rw [outcomes_append, hp s hs, List.flatMap_map, outcomes_append, List.map_flatMap]
  refine List.flatMap_congr fun t ht => ?_
  exact hq t fun hm => hs ((rest_of_mem_outcomes ht).subset hm)

theorem Local.alt {p q : Pattern} (hp : Local mark before after p)
    (hq : Local mark before after q) : Local mark before after (.alt p q) := by
  intro s hs
  simp only [outcomes, hp s hs, hq s hs, List.map_append]

theorem stopsFrom_within {p : Char → Bool} (hp : p mark = false) :
    ∀ {seen t : Text} {n k : Nat} {hn : n = seen.length} {hk : k = (seen ++ before).length},
      stopsFrom p (seen ++ before) k hk (t ++ mark :: after) =
        (stopsFrom p seen n hn t).map (·.within before (mark :: after))
  | seen, [], n, k, hn, hk => by
    subst hk
    simp [stopsFrom, hp, Cursor.within, between]
  | seen, x :: t, n, k, hn, hk => by
    subst hk
    have ih : stopsFrom p (x :: seen ++ before) _ (index_succ rfl x) (t ++ mark :: after) =
        (stopsFrom p (x :: seen) (n + 1) (index_succ hn x) t).map
          (·.within before (mark :: after)) := stopsFrom_within hp
    simp only [List.cons_append, stopsFrom, List.map_cons]
    congr 1
    cases hx : p x with
    | true => exact ih
    | false => rfl

theorem stops_within {p : Char → Bool} (hp : p mark = false) (c : Cursor) :
    (c.within before (mark :: after)).stops p =
      (c.stops p).map (·.within before (mark :: after)) := stopsFrom_within hp

theorem advance?_within {p : Char → Bool} {c : Cursor} (hp : c.rest = [] → p mark = false) :
    (c.within before (mark :: after)).advance? p =
      (c.advance? p).map (·.within before (mark :: after)) := by
  obtain ⟨seen, rest, n, rfl⟩ := c
  cases rest with
  | nil => simp [Cursor.within, between, advance?, hp rfl]
  | cons x rest =>
    cases hx : p x with
    | true =>
      simp only [Cursor.within, between, advance?, List.cons_append, hx, if_true, Option.map_some,
        Option.some.injEq, Cursor.mk.injEq, List.length_cons, List.length_append, true_and]
      omega
    | false => simp [Cursor.within, between, advance?, hx]

/-- A character in front of the mark is taken as if the text stood alone. -/
theorem outcomes_one_within {p : Char → Bool} {s : Progress}
    (hp : s.cursor.rest = [] → p mark = false) :
    outcomes (one p) (s.within before (mark :: after)) =
      (outcomes (one p) s).map (·.within before (mark :: after)) := by
  simp only [outcomes, Progress.within, advance?_within hp]
  cases s.cursor.advance? p <;> rfl

/-- The edges of words in the text are those that it has alone. -/
theorem atWordBoundary_within (hb : before.head?.any Unicode.isWord = false)
    (hm : Unicode.isWord mark = false) (c : Cursor) :
    (c.within before (mark :: after)).atWordBoundary = c.atWordBoundary := by
  obtain ⟨seen, rest, n, hn⟩ := c
  cases seen <;> cases rest <;> simp [atWordBoundary, Cursor.within, between, hb, hm]

/-- **A pattern that rejects the mark does not look past it**, whether or not the mark stands in the
text as well. -/
theorem outcomes_within_of_rejects {p : Pattern} (hp : p.rejects mark)
    (hb : before.head?.any Unicode.isWord = false) (hm : Unicode.isWord mark = false)
    (s : Progress) :
    outcomes p (s.within before (mark :: after)) =
      (outcomes p s).map (·.within before (mark :: after)) := by
  induction p generalizing s with
  | empty => rfl
  | one p => exact outcomes_one_within fun _ => by simpa [rejects] using hp
  | many p =>
    have hp : p mark = false := by simpa [rejects] using hp
    simp only [outcomes, Progress.within, stops_within hp, List.map_reverse, List.map_map]
    rfl
  | fewest p =>
    have hp : p mark = false := by simpa [rejects] using hp
    simp only [outcomes, Progress.within, stops_within hp, List.map_map]
    rfl
  | seq p q ihp ihq =>
    simp only [rejects, Bool.and_eq_true] at hp
    simp only [outcomes, ihp hp.1, List.flatMap_map, List.map_flatMap]
    exact List.flatMap_congr fun t _ => ihq hp.2 t
  | alt p q ihp ihq =>
    simp only [rejects, Bool.and_eq_true] at hp
    simp only [outcomes, ihp hp.1, ihq hp.2, List.map_append]
  | group n p ih =>
    simp only [outcomes, ih hp, List.map_map]
    rfl
  | wordBoundary =>
    have h : (s.cursor.within before (mark :: after)).atWordBoundary = s.cursor.atWordBoundary :=
      atWordBoundary_within hb hm s.cursor
    simp only [outcomes, Progress.within, h]
    split <;> rfl
  | lineStart => cases hp

theorem local_of_rejects {p : Pattern} (hp : p.rejects mark)
    (hb : before.head?.any Unicode.isWord = false) (hm : Unicode.isWord mark = false) :
    Local mark before after p := fun s _ => outcomes_within_of_rejects hp hb hm s

/-! ### Stretches up to a character -/

section UpTo

variable {p : Char → Bool}

/-- If a place within a stretch of a class gives nothing, only the end of the stretch counts. -/
theorem flatMap_stopsFrom {α : Type} {f : Cursor → List α}
    (hf : ∀ seen x rest, p x → f (between seen (x :: rest)) = [])
    (hv : ∀ c ∈ v.head?, p c = false) :
    ∀ {seen u : Text} {n : Nat} {h : n = seen.length}, (∀ c ∈ u, p c) →
      (stopsFrom p seen n h (u ++ v)).reverse.flatMap f = f (between (u.reverse ++ seen) v)
  | seen, [], n, h, _ => by
    subst h
    cases v with
    | nil => simp [stopsFrom, between]
    | cons x v =>
      have hx : p x = false := hv x (by simp)
      simp [stopsFrom, hx, between]
  | seen, x :: u, n, h, hu => by
    subst h
    have hx : p x = true := hu x (by simp)
    have h0 := hf seen x (u ++ v) hx
    rw [between] at h0
    rw [List.cons_append, stopsFrom, if_pos hx, List.reverse_cons, List.flatMap_append,
      flatMap_stopsFrom hf hv fun c hc => hu c (by simp [hc])]
    simp [h0]

theorem outcomes_char_eq_nil {s : Progress} (h : s.cursor.rest.head? ≠ some q) :
    outcomes (char q) s = [] := by
  obtain ⟨⟨seen, rest, n, hn⟩, g⟩ := s
  cases rest with
  | nil => rfl
  | cons x rest =>
    have hx : (x == q) = false := by simpa using h
    simp [char, outcomes, advance?, hx]

/-- A stretch of a class up to a character outside the class is taken to its end. -/
theorem outcomes_upTo (hq : p q = false) (hu : ∀ c ∈ u, p c) (hv : ∀ c ∈ v.head?, p c = false)
    (n : Nat) :
    outcomes (group n (many p) ++ char q) ⟨between seen (u ++ v), g⟩ =
      outcomes (char q) ⟨between (u.reverse ++ seen) v, (n, Span.of seen u v) :: g⟩ := by
  have hf : ∀ z x rest, p x →
      outcomes (char q) ⟨between z (x :: rest),
        (n, ⟨between seen (u ++ v), between z (x :: rest)⟩) :: g⟩ = [] := by
    intro z x rest hx
    refine outcomes_char_eq_nil ?_
    rintro hxq
    obtain rfl : x = q := by simpa [between] using hxq
    rw [hq] at hx
    cases hx
  simp only [outcomes_append, outcomes, List.map_map, List.flatMap_map]
  exact flatMap_stopsFrom (f := fun c =>
    outcomes (char q) ⟨c, (n, ⟨between seen (u ++ v), c⟩) :: g⟩) hf hv hu

/-- A stretch up to `q` ends in the text, if none that begins there ends behind it. -/
theorem local_upTo (hq : p q = false)
    (ha : ∀ a₁ a₂, mark :: after = a₁ ++ a₂ → (∀ c ∈ a₁, p c) → a₂.head? ≠ some q) (n : Nat) :
    Local mark before after (group n (many p) ++ char q) := by
  rintro ⟨c, g⟩ -
  obtain ⟨seen, t, rfl⟩ : ∃ seen t, c = between seen t := ⟨_, _, eq_between c⟩
  obtain ⟨u, v, rfl, hu, hv⟩ := Text.exists_span p t
  rw [outcomes_upTo hq hu hv]
  simp only [Progress.within, within_between, List.append_assoc]
  cases v with
  | nil =>
    -- the stretch goes on behind the mark, but no `q` ends it there
    obtain ⟨a₁, a₂, ha', h1, h2⟩ := Text.exists_span p (mark :: after)
    have hua : ∀ c ∈ u ++ a₁, p c := by
      rw [List.forall_mem_append]
      exact ⟨hu, h1⟩
    rw [List.nil_append, ha', ← List.append_assoc, outcomes_upTo hq hua h2,
      outcomes_char_eq_nil (ha _ _ ha' h1), outcomes_char_eq_nil (by simp [between])]
    rfl
  | cons x v =>
    rw [outcomes_upTo hq hu (by simpa using hv)]
    have h : ∀ s : Progress, s.cursor.rest ≠ [] →
        outcomes (char q) (s.within before (mark :: after)) =
          (outcomes (char q) s).map (·.within before (mark :: after)) :=
      fun s hs => outcomes_one_within fun hn => absurd hn hs
    have h' := h ⟨between (u.reverse ++ seen) (x :: v), (n, Span.of seen u (x :: v)) :: g⟩
      (by simp [between])
    simpa [Progress.within, within_between, groupsWithin, Span.within_of] using h'

end UpTo

/-! ### Searching -/

variable {p : Pattern}

theorem matchAt?_within {c : Cursor}
    (h : outcomes p ((⟨c, []⟩ : Progress).within before after) =
      (outcomes p ⟨c, []⟩).map (·.within before after)) :
    p.matchAt? (c.within before after) = (p.matchAt? c).map (·.within before after) := by
  simp only [Progress.within, groupsWithin, List.map_nil] at h
  rw [matchAt?_eq_head?, matchAt?_eq_head?, h, List.head?_map, Option.map_map, Option.map_map]
  rfl

/-- A search from a place within the text finds what it would find there if the text stood alone, and
goes on behind the text, if matches are those that it would have alone. -/
theorem findFrom_within (hne : ∀ {seen w rest g}, Takes p seen w rest [] g → w ≠ []) :
    ∀ {n : Nat} {seen t : Text}, t.length ≤ n →
      (∀ seen r, r <:+ t → r ≠ [] → p.matchAt? ((between seen r).within before after) =
        (p.matchAt? (between seen r)).map (·.within before after)) →
      p.findFrom (seen ++ before) (t ++ after) =
        (p.findFrom seen t).map (·.within before after) ++
          p.findFrom (t.reverse ++ (seen ++ before)) after
  | _, seen, [], _, _ => rfl
  | n + 1, seen, x :: t, hn, hmatch => by
    have hm := hmatch seen (x :: t) List.suffix_rfl (by simp)
    rw [within_between] at hm
    cases hx : p.matchAt? (between seen (x :: t)) with
    | none =>
      have ih : p.findFrom (x :: seen ++ before) (t ++ after) = _ :=
        findFrom_within hne (n := n) (by simpa using hn) fun seen r hr =>
          hmatch seen r (hr.trans (List.suffix_cons x t))
      rw [hx, List.cons_append] at hm
      rw [findFrom_cons_of_none hx, List.cons_append, findFrom_cons_of_none hm]
      simpa using ih
    | some m =>
      obtain ⟨w, rest, g, hr, rfl, hw⟩ := takes_of_matchAt?_eq_some hx
      have hw' := hne hw
      -- the search goes on behind the match, with less text to come
      have hlen := length_le_of_cons_eq_append hr hw' hn
      have hwithin : (matchOf seen w rest g).within before after =
          matchOf (seen ++ before) w (rest ++ after) (groupsWithin before after g) := by
        simp [matchOf, Match.within, Span.within_of]
      rw [hx, hr, Option.map_some, hwithin, List.append_assoc] at hm
      have ih : p.findFrom (w.reverse ++ seen ++ before) (rest ++ after) = _ :=
        findFrom_within hne hlen fun seen r hr' =>
          hmatch seen r (hr'.trans (by rw [hr]; exact List.suffix_append w rest))
      rw [hr] at hx
      rw [hr, findFrom_of_some hw' hx, List.append_assoc, findFrom_of_some hw' hm, List.map_cons,
        hwithin]
      simpa using ih

/-- **A search finds in the text what it would find there alone**, and goes on at the mark. -/
theorem findFrom_append_within (hp : Local mark before after p)
    (hne : ∀ {seen w rest g}, Takes p seen w rest [] g → w ≠ []) {t : Text} (ht : mark ∉ t) :
    p.findFrom before (t ++ mark :: after) =
      (p.findAll t).map (·.within before (mark :: after)) ++
        p.findFrom (t.reverse ++ before) (mark :: after) := by
  have h : p.findFrom ([] ++ before) (t ++ mark :: after) = _ :=
    findFrom_within hne le_rfl fun seen r hr _ =>
      matchAt?_within (hp ⟨between seen r, []⟩ fun h => ht (hr.subset h))
  exact h

/-- So does a search with a pattern that rejects the mark, though the mark may stand in the text. -/
theorem findFrom_append_of_rejects (hp : p.rejects mark)
    (hb : before.head?.any Unicode.isWord = false) (hm : Unicode.isWord mark = false)
    (hne : ∀ {seen w rest g}, Takes p seen w rest [] g → w ≠ []) (t : Text) :
    p.findFrom before (t ++ mark :: after) =
      (p.findAll t).map (·.within before (mark :: after)) ++
        p.findFrom (t.reverse ++ before) (mark :: after) := by
  have h : p.findFrom ([] ++ before) (t ++ mark :: after) = _ :=
    findFrom_within hne le_rfl fun seen r _ _ =>
      matchAt?_within (outcomes_within_of_rejects hp hb hm ⟨between seen r, []⟩)
  exact h

end Pattern

end DryRun
