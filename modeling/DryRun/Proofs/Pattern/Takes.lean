import Mathlib.Data.List.Infix
import Mathlib.Tactic.SplitIfs
import DryRun.Pattern.Search

/-!
# What a pattern takes

`Takes p seen w rest g g'` says that from the place between `seen` (nearest character first) and
`w ++ rest` the pattern `p` can match the text `w`, and that the groups remembered go from `g` to
`g'` on the way.  It is the meaning of a pattern without the order of preference: the outcomes are
exactly the ways to take a text (`mem_outcomes_iff`).  Whether a pattern matches at a place, and what
a match holds, is read off it.
-/

namespace DryRun

namespace Cursor

/-- The places reached by reading characters of a class are those behind a text of that class. -/
theorem mem_stopsFrom_iff {p : Char → Bool} {d : Cursor} :
    ∀ {seen : Text} {n : Nat} {h : n = seen.length} {r : Text},
      d ∈ stopsFrom p seen n h r ↔
        ∃ w rest, r = w ++ rest ∧ (∀ c ∈ w, p c) ∧ d = between (w.reverse ++ seen) rest
  | seen, n, h, [] => by
    subst h
    simp only [stopsFrom, List.mem_singleton]
    constructor
    · rintro rfl
      exact ⟨[], [], rfl, by simp, rfl⟩
    · rintro ⟨w, rest, hr, -, rfl⟩
      obtain ⟨rfl, rfl⟩ := List.append_eq_nil_iff.1 hr.symm
      rfl
  | seen, n, h, x :: r => by
    subst h
    simp only [stopsFrom, List.mem_cons]
    constructor
    · rintro (rfl | hd)
      · exact ⟨[], x :: r, rfl, by simp, rfl⟩
      · split_ifs at hd with hx
        · obtain ⟨w, rest, rfl, hw, rfl⟩ := mem_stopsFrom_iff.1 hd
          exact ⟨x :: w, rest, rfl, by simpa [hx] using hw, by simp⟩
        · cases hd
    · rintro ⟨w, rest, hr, hw, rfl⟩
      cases w with
      | nil =>
        obtain rfl : x :: r = rest := hr
        exact Or.inl rfl
      | cons y w =>
        obtain ⟨rfl, rfl⟩ := List.cons_eq_cons.1 hr
        refine Or.inr ?_
        rw [if_pos (hw x (by simp))]
        exact mem_stopsFrom_iff.2 ⟨w, rest, rfl, fun c hc => hw c (by simp [hc]), by simp⟩

end Cursor

/-- The stretch `w` between `seen`, nearest character first, and `rest`. -/
def Span.of (seen w rest : Text) : Span :=
  ⟨.between seen (w ++ rest), .between (w.reverse ++ seen) rest⟩

@[simp] theorem Span.length_of (seen w rest : Text) : (Span.of seen w rest).length = w.length := by
  simp [Span.of, Span.length, Cursor.between]

@[simp] theorem Span.text_of (seen w rest : Text) : (Span.of seen w rest).text = w := by
  rw [Span.text, Span.length_of]
  exact List.take_left

namespace Pattern

open Cursor

/-- One way for a pattern to match `w` where it stands between `seen`, nearest character first, and
`rest`; the groups remembered go from the first list to the second. -/
def Takes : Pattern → (seen w rest : Text) → List (Nat × Span) → List (Nat × Span) → Prop
  | empty, _, w, _, g, g' => w = [] ∧ g' = g
  | one p, _, w, _, g, g' => (∃ c, p c ∧ w = [c]) ∧ g' = g
  | many p, _, w, _, g, g' => (∀ c ∈ w, p c) ∧ g' = g
  | fewest p, _, w, _, g, g' => (∀ c ∈ w, p c) ∧ g' = g
  | seq p q, seen, w, rest, g, g' =>
    ∃ u v h, w = u ++ v ∧ Takes p seen u (v ++ rest) g h ∧ Takes q (u.reverse ++ seen) v rest h g'
  | alt p q, seen, w, rest, g, g' => Takes p seen w rest g g' ∨ Takes q seen w rest g g'
  | group n p, seen, w, rest, g, g' =>
    ∃ h, Takes p seen w rest g h ∧ g' = (n, Span.of seen w rest) :: h
  | wordBoundary, seen, w, rest, g, g' =>
    w = [] ∧ (between seen rest).atWordBoundary ∧ g' = g
  | lineStart, seen, w, rest, g, g' => w = [] ∧ (between seen rest).atLineStart ∧ g' = g

variable {p q : Pattern} {seen w r rest : Text} {g g' : List (Nat × Span)}

theorem takes_append :
    Takes (p ++ q) seen w rest g g' ↔
      ∃ u v h, w = u ++ v ∧ Takes p seen u (v ++ rest) g h ∧
        Takes q (u.reverse ++ seen) v rest h g' := Iff.rfl

/-- **The outcomes of a pattern are the ways to take a text.** -/
theorem mem_outcomes_iff {t : Progress} :
    t ∈ outcomes p ⟨between seen r, g⟩ ↔
      ∃ w rest g', r = w ++ rest ∧ t = ⟨between (w.reverse ++ seen) rest, g'⟩ ∧
        Takes p seen w rest g g' := by
  induction p generalizing seen r g t with
  | empty =>
    simp only [outcomes, List.mem_singleton, Takes]
    constructor
    · rintro rfl
      exact ⟨[], r, g, rfl, rfl, rfl, rfl⟩
    · rintro ⟨w, rest, g', rfl, rfl, rfl, rfl⟩
      rfl
  | one p =>
    simp only [outcomes, List.mem_map, Option.mem_toList, Takes]
    constructor
    · rintro ⟨c, hc, rfl⟩
      cases r with
      | nil => cases hc
      | cons x r =>
        simp only [advance?, between] at hc
        split_ifs at hc with hx
        cases hc
        exact ⟨[x], r, g, rfl, rfl, ⟨x, hx, rfl⟩, rfl⟩
    · rintro ⟨w, rest, g', rfl, rfl, ⟨x, hx, rfl⟩, rfl⟩
      exact ⟨between (x :: seen) rest, by simp [advance?, between, hx], rfl⟩
  | many p =>
    simp only [outcomes, List.mem_map, List.mem_reverse, stops, mem_stopsFrom_iff, Takes]
    constructor
    · rintro ⟨c, ⟨w, rest, hr, hw, rfl⟩, rfl⟩
      exact ⟨w, rest, g, hr, rfl, hw, rfl⟩
    · rintro ⟨w, rest, g', hr, rfl, hw, rfl⟩
      exact ⟨_, ⟨w, rest, hr, hw, rfl⟩, rfl⟩
  | fewest p =>
    simp only [outcomes, List.mem_map, stops, mem_stopsFrom_iff, Takes]
    constructor
    · rintro ⟨c, ⟨w, rest, hr, hw, rfl⟩, rfl⟩
      exact ⟨w, rest, g, hr, rfl, hw, rfl⟩
    · rintro ⟨w, rest, g', hr, rfl, hw, rfl⟩
      exact ⟨_, ⟨w, rest, hr, hw, rfl⟩, rfl⟩
  | seq p q ihp ihq =>
    simp only [outcomes, List.mem_flatMap, Takes]
    constructor
    · rintro ⟨m, hm, ht⟩
      -- `p` takes `u`, and `q` takes `v` from there on
      obtain ⟨u, rest', h, rfl, rfl, hu⟩ := ihp.1 hm
      obtain ⟨v, rest, g', rfl, rfl, hv⟩ := ihq.1 ht
      exact ⟨u ++ v, rest, g', by simp, by simp, u, v, h, rfl, hu, hv⟩
    · rintro ⟨w, rest, g', rfl, rfl, u, v, h, rfl, hu, hv⟩
      refine ⟨⟨between (u.reverse ++ seen) (v ++ rest), h⟩, ihp.2 ?_, ihq.2 ?_⟩
      · exact ⟨u, v ++ rest, h, by simp, rfl, hu⟩
      · exact ⟨v, rest, g', rfl, by simp, hv⟩
  | alt p q ihp ihq =>
    simp only [outcomes, List.mem_append, ihp, ihq, Takes]
    constructor
    · rintro (⟨w, rest, g', hr, ht, h⟩ | ⟨w, rest, g', hr, ht, h⟩)
      · exact ⟨w, rest, g', hr, ht, Or.inl h⟩
      · exact ⟨w, rest, g', hr, ht, Or.inr h⟩
    · rintro ⟨w, rest, g', hr, ht, h | h⟩
      · exact Or.inl ⟨w, rest, g', hr, ht, h⟩
      · exact Or.inr ⟨w, rest, g', hr, ht, h⟩
  | group n p ih =>
    simp only [outcomes, List.mem_map, Takes]
    constructor
    · rintro ⟨m, hm, rfl⟩
      obtain ⟨w, rest, h, rfl, rfl, hw⟩ := ih.1 hm
      exact ⟨w, rest, _, rfl, rfl, h, hw, rfl⟩
    · rintro ⟨w, rest, g', rfl, rfl, h, hw, rfl⟩
      exact ⟨_, ih.2 ⟨w, rest, h, rfl, rfl, hw⟩, rfl⟩
  | wordBoundary =>
    simp only [outcomes, Takes]
    constructor
    · intro h
      split_ifs at h with hb
      · rw [List.mem_singleton] at h
        exact ⟨[], r, g, rfl, h, rfl, hb, rfl⟩
      · cases h
    · rintro ⟨w, rest, g', rfl, rfl, rfl, hb, rfl⟩
      rw [if_pos (by exact hb)]
      exact List.mem_singleton.2 rfl
  | lineStart =>
    simp only [outcomes, Takes]
    constructor
    · intro h
      split_ifs at h with hb
      · rw [List.mem_singleton] at h
        exact ⟨[], r, g, rfl, h, rfl, hb, rfl⟩
      · cases h
    · rintro ⟨w, rest, g', rfl, rfl, rfl, hb, rfl⟩
      rw [if_pos (by exact hb)]
      exact List.mem_singleton.2 rfl

/-! ### Matches at a place -/

/-- The match that takes `w` where it stands between `seen` and `rest`. -/
def matchOf (seen w rest : Text) (g : List (Nat × Span)) : Match :=
  ⟨Span.of seen w rest, g⟩

theorem takes_of_matchAt?_eq_some {m : Match} (h : p.matchAt? (between seen r) = some m) :
    ∃ w rest g, r = w ++ rest ∧ m = matchOf seen w rest g ∧ Takes p seen w rest [] g := by
  rw [matchAt?_eq_head?, Option.map_eq_some_iff] at h
  obtain ⟨t, ht, rfl⟩ := h
  obtain ⟨w, rest, g, rfl, rfl, hw⟩ := mem_outcomes_iff.1 (List.mem_of_mem_head? ht)
  exact ⟨w, rest, g, rfl, rfl, hw⟩

theorem matchAt?_eq_none_iff :
    p.matchAt? (between seen r) = none ↔
      ∀ w rest g, r = w ++ rest → ¬ Takes p seen w rest [] g := by
  rw [matchAt?_eq_head?, Option.map_eq_none_iff, List.head?_eq_none_iff,
    List.eq_nil_iff_forall_not_mem]
  constructor
  · intro h w rest g hr hw
    exact h _ (mem_outcomes_iff.2 ⟨w, rest, g, hr, rfl, hw⟩)
  · intro h t ht
    obtain ⟨w, rest, g, hr, -, hw⟩ := mem_outcomes_iff.1 ht
    exact h w rest g hr hw

theorem exists_matchAt? (h : Takes p seen w rest [] g) :
    ∃ m, p.matchAt? (between seen (w ++ rest)) = some m := by
  refine Option.ne_none_iff_exists'.1 fun hn => ?_
  exact matchAt?_eq_none_iff.1 hn w rest g rfl h

/-! ### Common patterns -/

@[simp] theorem takes_char {c : Char} :
    Takes (char c) seen w rest g g' ↔ w = [c] ∧ g' = g := by
  simp [char, Takes]

theorem takes_chars {cs : List Char} :
    Takes (cs.foldr (fun c rest => char c ++ rest) empty) seen w rest g g' ↔
      w = cs ∧ g' = g := by
  induction cs generalizing seen w g with
  | nil => rfl
  | cons c cs ih =>
    rw [List.foldr_cons, takes_append]
    simp only [takes_char, ih]
    constructor
    · rintro ⟨u, v, h, rfl, ⟨rfl, rfl⟩, rfl, rfl⟩
      exact ⟨rfl, rfl⟩
    · rintro ⟨rfl, rfl⟩
      exact ⟨[c], cs, g', rfl, ⟨rfl, rfl⟩, rfl, rfl⟩

@[simp] theorem takes_exactly {s : String} :
    Takes (exactly s) seen w rest g g' ↔ w = s.toList ∧ g' = g := takes_chars

theorem takes_oneOf : ∀ {l : List String}, l ≠ [] →
    (Takes (oneOf l) seen w rest g g' ↔ (∃ s ∈ l, w = s.toList) ∧ g' = g)
  | [], h => absurd rfl h
  | [s], _ => by simp [oneOf]
  | s :: t :: l, _ => by
    have ih := takes_oneOf (l := t :: l) (by simp)
    simp only [oneOf, Takes, takes_exactly, List.exists_mem_cons_iff, or_and_right] at ih ⊢
    rw [ih]

@[simp] theorem takes_blanks :
    Takes blanks seen w rest g g' ↔ w.isBlank ∧ g' = g := by
  simp [blanks, Takes, Text.isBlank]

theorem takes_atLeastOne {cs : Char → Bool} :
    Takes (atLeastOne cs) seen w rest g g' ↔ (w ≠ [] ∧ ∀ c ∈ w, cs c) ∧ g' = g := by
  simp only [atLeastOne, takes_append, Takes]
  constructor
  · rintro ⟨_, v, _, rfl, ⟨⟨c, hc, rfl⟩, rfl⟩, hv, rfl⟩
    exact ⟨⟨by simp, by simpa using ⟨hc, hv⟩⟩, rfl⟩
  · rintro ⟨⟨hne, hw⟩, rfl⟩
    obtain ⟨c, v, rfl⟩ := List.exists_cons_of_ne_nil hne
    rw [List.forall_mem_cons] at hw
    exact ⟨[c], v, _, rfl, ⟨⟨c, hw.1, rfl⟩, rfl⟩, hw.2, rfl⟩

theorem takes_gap : Takes gap seen w rest g g' ↔ (w ≠ [] ∧ w.isBlank) ∧ g' = g := by
  rw [gap, takes_atLeastOne, Text.isBlank, List.all_eq_true]

theorem takes_word :
    Takes word seen w rest g g' ↔ (w ≠ [] ∧ ∀ c ∈ w, Unicode.isWord c) ∧ g' = g := takes_atLeastOne

/-! ### Sequences, from left to right -/

theorem takes_assoc {o : Pattern} :
    Takes (o ++ p ++ q) seen w rest g g' ↔ Takes (o ++ (p ++ q)) seen w rest g g' := by
  simp only [takes_append]
  constructor
  · rintro ⟨_, z, h, rfl, ⟨x, y, h', rfl, hx, hy⟩, hz⟩
    refine ⟨x, y ++ z, h', by simp, by simpa using hx, y, z, h, rfl, hy, ?_⟩
    simpa using hz
  · rintro ⟨x, _, h', rfl, hx, y, z, h, rfl, hy, hz⟩
    refine ⟨x ++ y, z, h, by simp, ⟨x, y, h', rfl, by simpa using hx, hy⟩, ?_⟩
    simpa using hz

theorem takes_char_append {c : Char} :
    Takes (char c ++ q) seen w rest g g' ↔ ∃ v, w = c :: v ∧ Takes q (c :: seen) v rest g g' := by
  simp only [takes_append, takes_char]
  constructor
  · rintro ⟨u, v, h, rfl, ⟨rfl, rfl⟩, hv⟩
    exact ⟨v, rfl, hv⟩
  · rintro ⟨v, rfl, hv⟩
    exact ⟨_, v, g, rfl, ⟨rfl, rfl⟩, hv⟩

theorem takes_oneOf_append {l : List String} (hl : l ≠ []) :
    Takes (oneOf l ++ q) seen w rest g g' ↔
      ∃ s ∈ l, ∃ v, w = s.toList ++ v ∧ Takes q (s.toList.reverse ++ seen) v rest g g' := by
  simp only [takes_append, takes_oneOf hl]
  constructor
  · rintro ⟨u, v, h, rfl, ⟨⟨s, hs, rfl⟩, rfl⟩, hv⟩
    exact ⟨s, hs, v, rfl, hv⟩
  · rintro ⟨s, hs, v, rfl, hv⟩
    exact ⟨_, v, g, rfl, ⟨⟨s, hs, rfl⟩, rfl⟩, hv⟩

theorem takes_blanks_append :
    Takes (blanks ++ q) seen w rest g g' ↔
      ∃ b v, b.isBlank ∧ w = b ++ v ∧ Takes q (b.reverse ++ seen) v rest g g' := by
  simp only [takes_append, takes_blanks]
  constructor
  · rintro ⟨b, v, h, rfl, ⟨hb, rfl⟩, hv⟩
    exact ⟨b, v, hb, rfl, hv⟩
  · rintro ⟨b, v, hb, rfl, hv⟩
    exact ⟨b, v, g, rfl, ⟨hb, rfl⟩, hv⟩

/-- Before a word character a word begins unless another word character stands before it. -/
theorem atWordBoundary_of_isWord {c : Char} (hc : Unicode.isWord c) :
    (between seen (c :: rest)).atWordBoundary = !seen.head?.any Unicode.isWord := by
  cases h : seen.head?.any Unicode.isWord <;> simp [atWordBoundary, between, hc, h]

theorem takes_wordBoundary_append :
    Takes (wordBoundary ++ q) seen w rest g g' ↔
      (between seen (w ++ rest)).atWordBoundary ∧ Takes q seen w rest g g' := by
  simp only [takes_append, Takes]
  constructor
  · rintro ⟨_, v, _, rfl, ⟨rfl, hb, rfl⟩, hv⟩
    exact ⟨hb, hv⟩
  · rintro ⟨hb, hv⟩
    exact ⟨[], w, g, rfl, ⟨rfl, hb, rfl⟩, hv⟩

theorem takes_group_append {n : Nat} :
    Takes (group n p ++ q) seen w rest g g' ↔
      ∃ u v h, w = u ++ v ∧ Takes p seen u (v ++ rest) g h ∧
        Takes q (u.reverse ++ seen) v rest ((n, Span.of seen u (v ++ rest)) :: h) g' := by
  simp only [takes_append, Takes]
  constructor
  · rintro ⟨u, v, _, rfl, ⟨h, hu, rfl⟩, hv⟩
    exact ⟨u, v, h, rfl, hu, hv⟩
  · rintro ⟨u, v, h, rfl, hu, hv⟩
    exact ⟨u, v, _, rfl, ⟨h, hu, rfl⟩, hv⟩

/-! ### The characters that a pattern takes -/

/-- Whether all characters that a pattern takes belong to a class. -/
def TakesOnly (cs : Char → Prop) : Pattern → Prop
  | empty | wordBoundary | lineStart => True
  | one p | many p | fewest p => ∀ c, p c → cs c
  | seq p q | alt p q => TakesOnly cs p ∧ TakesOnly cs q
  | group _ p => TakesOnly cs p

theorem forall_mem_of_takes {cs : Char → Prop} (hp : TakesOnly cs p)
    (h : Takes p seen w rest g g') : ∀ c ∈ w, cs c := by
  induction p generalizing seen w rest g g' with
  | empty =>
    obtain ⟨rfl, -⟩ := h
    simp
  | one p =>
    obtain ⟨⟨c, hc, rfl⟩, -⟩ := h
    simpa using hp c hc
  | many p => exact fun c hc => hp c (h.1 c hc)
  | fewest p => exact fun c hc => hp c (h.1 c hc)
  | seq p q ihp ihq =>
    obtain ⟨u, v, _, rfl, hu, hv⟩ := h
    rw [List.forall_mem_append]
    exact ⟨ihp hp.1 hu, ihq hp.2 hv⟩
  | alt p q ihp ihq =>
    rcases h with h | h
    · exact ihp hp.1 h
    · exact ihq hp.2 h
  | group n p ih =>
    obtain ⟨_, h, -⟩ := h
    exact ih hp h
  | wordBoundary =>
    obtain ⟨rfl, -⟩ := h
    simp
  | lineStart =>
    obtain ⟨rfl, -⟩ := h
    simp

theorem takesOnly_exactly {cs : Char → Prop} {s : String} (hs : ∀ c ∈ s.toList, cs c) :
    TakesOnly cs (exactly s) := by
  unfold exactly
  revert hs
  induction s.toList with
  | nil => exact fun _ => trivial
  | cons c t ih =>
    intro hs
    rw [List.forall_mem_cons] at hs
    refine ⟨fun d hd => ?_, ih hs.2⟩
    obtain rfl : d = c := beq_iff_eq.1 hd
    exact hs.1

theorem takesOnly_oneOf {cs : Char → Prop} : ∀ {l : List String},
    (∀ s ∈ l, ∀ c ∈ s.toList, cs c) → TakesOnly cs (oneOf l)
  | [], _ => trivial
  | [s], h => takesOnly_exactly (h s (by simp))
  | s :: t :: l, h =>
    ⟨takesOnly_exactly (h s (by simp)), takesOnly_oneOf fun x hx => h x (by simp [hx])⟩

end Pattern

end DryRun
