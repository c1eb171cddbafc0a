import DryRun.Proofs.Pattern.Takes
import DryRun.Proofs.Text

/-!
# What a pattern prefers

`Prefers p seen w rest g g'` says that of all the ways to match from the place between `seen` (nearest
character first) and `w ++ rest` the pattern `p` prefers the one that takes `w`, and that the groups
remembered go from `g` to `g'` on the way.  Where every part of a pattern can be matched in the way that
it prefers, so is the whole (`Prefers.append`), and that is the match at the place
(`Prefers.matchAt?`).
-/

namespace DryRun

namespace Pattern

open Cursor

/-- Whether a pattern prefers to take `w` where it stands between `seen`, nearest character first, and
`rest`; the groups remembered go from the first list to the second. -/
def Prefers (p : Pattern) (seen w rest : Text) (g g' : List (Nat × Span)) : Prop :=
  (outcomes p ⟨between seen (w ++ rest), g⟩).head? = some ⟨between (w.reverse ++ seen) rest, g'⟩

variable {p q : Pattern} {cs : Char → Bool} {seen u v w rest : Text} {g h g' : List (Nat × Span)}

/-- The preferred way to match at a place is the match there. -/
theorem Prefers.matchAt? (hp : Prefers p seen w rest [] g) :
    p.matchAt? (between seen (w ++ rest)) = some (matchOf seen w rest g) := by
  unfold Prefers at hp
  rw [matchAt?_eq_head?, hp]
  rfl

theorem Prefers.takes (hp : Prefers p seen w rest g g') : Takes p seen w rest g g' := by
  obtain ⟨w', rest', g'', -, ht, h⟩ := mem_outcomes_iff.1 (List.mem_of_mem_head? hp)
  obtain ⟨hcursor, rfl⟩ := Progress.mk.inj ht
  have hseen : w.reverse ++ seen = w'.reverse ++ seen := congrArg Cursor.seen hcursor
  obtain rfl : w = w' := List.reverse_inj.1 (List.append_cancel_right hseen)
  obtain rfl : rest = rest' := congrArg Cursor.rest hcursor
  exact h

/-- There is one way that a pattern prefers. -/
theorem Prefers.unique {w' rest' : Text} {g'' : List (Nat × Span)} (hp : Prefers p seen w rest g g')
    (hp' : Prefers p seen w' rest' g g'') (hr : w ++ rest = w' ++ rest') :
    w = w' ∧ rest = rest' ∧ g' = g'' := by
  unfold Prefers at hp hp'
  rw [hr, hp'] at hp
  obtain ⟨hcursor, rfl⟩ := Progress.mk.inj (Option.some.inj hp)
  obtain rfl : rest' = rest := congrArg Cursor.rest hcursor
  exact ⟨List.append_cancel_right hr, rfl, rfl⟩

/-- The match at a place is the preferred way to match there. -/
theorem prefers_of_matchAt? {r : Text} {m : Match} (h : p.matchAt? (between seen r) = some m) :
    ∃ w rest g, r = w ++ rest ∧ m = matchOf seen w rest g ∧ Prefers p seen w rest [] g := by
  rw [matchAt?_eq_head?, Option.map_eq_some_iff] at h
  obtain ⟨t, ht, rfl⟩ := h
  obtain ⟨w, rest, g, rfl, rfl, -⟩ := mem_outcomes_iff.1 (List.mem_of_mem_head? ht)
  exact ⟨w, rest, g, rfl, rfl, ht⟩

/-! ### Compound patterns -/

/-- In a sequence the second pattern is matched in the way that it prefers, from where the first one
ends. -/
theorem Prefers.of_append (h : Prefers (p ++ q) seen w rest g g') :
    ∃ u v g'', w = u ++ v ∧ Takes p seen u (v ++ rest) g g'' ∧
      Prefers q (u.reverse ++ seen) v rest g'' g' := by
  unfold Prefers at h
  rw [outcomes_append, List.head?_flatMap] at h
  obtain ⟨t, ht, hq⟩ := List.exists_of_findSome?_eq_some h
  obtain ⟨u, r, g'', hr, rfl, hu⟩ := mem_outcomes_iff.1 ht
  obtain ⟨v, rest', _, rfl, hend, -⟩ := mem_outcomes_iff.1 (List.mem_of_mem_head? hq)
  have hcursor := congrArg Progress.cursor hend
  obtain rfl : rest = rest' := congrArg Cursor.rest hcursor
  obtain rfl : w = u ++ v := List.append_cancel_right (by rw [hr, List.append_assoc])
  refine ⟨u, v, g'', rfl, hu, ?_⟩
  unfold Prefers
  rw [hq, List.reverse_append, List.append_assoc]

theorem Prefers.append (hp : Prefers p seen u (v ++ rest) g h)
    (hq : Prefers q (u.reverse ++ seen) v rest h g') : Prefers (p ++ q) seen (u ++ v) rest g g' := by
  unfold Prefers at hp hq ⊢
  obtain ⟨l, hl⟩ := List.head?_eq_some_iff.1 hp
  rw [outcomes_append, List.append_assoc, hl, List.flatMap_cons, List.head?_append, hq]
  simp

theorem prefers_assoc {o : Pattern} :
    Prefers (o ++ p ++ q) seen w rest g g' ↔ Prefers (o ++ (p ++ q)) seen w rest g g' := by
  have h : ∀ s, outcomes (o ++ p ++ q) s = outcomes (o ++ (p ++ q)) s := fun _ => List.flatMap_assoc
  simp only [Prefers, h]

theorem Prefers.group (hp : Prefers p seen w rest g h) (n : Nat) :
    Prefers (group n p) seen w rest g ((n, Span.of seen w rest) :: h) := by
  unfold Prefers at hp ⊢
  rw [outcomes, List.head?_map, hp]
  rfl

theorem Prefers.alt_left (hp : Prefers p seen w rest g g') : Prefers (alt p q) seen w rest g g' := by
  unfold Prefers at hp ⊢
  rw [outcomes, List.head?_append, hp]
  rfl

/-- Whether a pattern can take nothing at a place. -/
def Fails (p : Pattern) (seen r : Text) : Prop :=
  ∀ w rest g g', r = w ++ rest → ¬ Takes p seen w rest g g'

theorem Fails.outcomes_eq_nil {r : Text} (hp : Fails p seen r) :
    outcomes p ⟨between seen r, g⟩ = [] := by
  refine List.eq_nil_iff_forall_not_mem.2 fun t ht => ?_
  obtain ⟨w, rest, g', hr, -, hw⟩ := mem_outcomes_iff.1 ht
  exact hp w rest g g' hr hw

theorem Prefers.alt_right (hp : Fails p seen (w ++ rest)) (hq : Prefers q seen w rest g g') :
    Prefers (alt p q) seen w rest g g' := by
  unfold Prefers at hq ⊢
  rw [outcomes, hp.outcomes_eq_nil, List.nil_append, hq]

theorem prefers_optional (hp : Fails p seen rest) : Prefers (optional p) seen [] rest g g :=
  Prefers.alt_right hp rfl

theorem Fails.append (hp : Fails p seen u) (q : Pattern) : Fails (p ++ q) seen u := by
  intro w rest g g' hr h
  obtain ⟨x, y, _, rfl, hx, -⟩ := takes_append.1 h
  exact hp x (y ++ rest) _ _ (by rw [hr, List.append_assoc]) hx

theorem fails_char {c : Char} (hr : rest.head? ≠ some c) : Fails (char c) seen rest := by
  intro w rest' g g' h hw
  obtain ⟨rfl, -⟩ := takes_char.1 hw
  exact hr (by rw [h]; rfl)

/-! ### Characters -/

theorem prefers_one {c : Char} (hc : cs c) : Prefers (one cs) seen [c] rest g g := by
  simp [Prefers, outcomes, advance?, between, hc]

theorem prefers_char (c : Char) : Prefers (char c) seen [c] rest g g := prefers_one (by simp)

theorem getLast?_stopsFrom (hr : ∀ c ∈ rest.head?, cs c = false) :
    ∀ {w seen : Text} {n : Nat} {h : n = seen.length}, (∀ c ∈ w, cs c) →
      (stopsFrom cs seen n h (w ++ rest)).getLast? = some (between (w.reverse ++ seen) rest)
  | [], seen, n, h, _ => by
    subst h
    cases rest with
    | nil => rfl
    | cons x rest => simp [stopsFrom, hr x (by simp), between]
  | x :: w, seen, n, h, hw => by
    have ih := getLast?_stopsFrom hr (w := w) (h := index_succ h x)
      fun c hc => hw c (by simp [hc])
    rw [List.cons_append, stopsFrom, if_pos (hw x (by simp)), List.getLast?_cons, ih]
    simp

theorem prefers_many (hw : ∀ c ∈ w, cs c) (hr : ∀ c ∈ rest.head?, cs c = false) :
    Prefers (many cs) seen w rest g g := by
  unfold Prefers
  rw [outcomes, List.head?_map, List.head?_reverse, stops]
  have h : (stopsFrom cs seen seen.length rfl (w ++ rest)).getLast? = _ := getLast?_stopsFrom hr hw
  exact congrArg (Option.map _) h

theorem prefers_atLeastOne (hne : w ≠ []) (hw : ∀ c ∈ w, cs c)
    (hr : ∀ c ∈ rest.head?, cs c = false) : Prefers (atLeastOne cs) seen w rest g g := by
  obtain ⟨c, w, rfl⟩ := List.exists_cons_of_ne_nil hne
  exact (prefers_one (hw c (by simp))).append (v := w)
    (prefers_many (fun d hd => hw d (by simp [hd])) hr)

theorem prefers_blanks (hw : w.isBlank) (hr : ∀ c ∈ rest.head?, Unicode.isWhiteSpace c = false) :
    Prefers blanks seen w rest g g :=
  prefers_many (List.all_eq_true.1 hw) hr

theorem prefers_gap (hne : w ≠ []) (hw : w.isBlank)
    (hr : ∀ c ∈ rest.head?, Unicode.isWhiteSpace c = false) : Prefers gap seen w rest g g :=
  prefers_atLeastOne hne (List.all_eq_true.1 hw) hr

theorem prefers_word (hne : w ≠ []) (hw : ∀ c ∈ w, Unicode.isWord c)
    (hr : ∀ c ∈ rest.head?, Unicode.isWord c = false) : Prefers word seen w rest g g :=
  prefers_atLeastOne hne hw hr

/-! ### Given texts -/

theorem prefers_chars (cs : List Char) :
    Prefers (cs.foldr (fun c rest => char c ++ rest) empty) seen cs rest g g := by
  induction cs generalizing seen with
  | nil => rfl
  | cons c cs ih => exact (prefers_char c).append (v := cs) ih

theorem prefers_exactly (s : String) : Prefers (exactly s) seen s.toList rest g g :=
  prefers_chars s.toList

theorem prefers_oneOf {s : String} : ∀ {l : List String}, s ∈ l →
    (∀ s' ∈ l, ∀ r, s.toList ++ rest = s'.toList ++ r → s' = s) →
    Prefers (oneOf l) seen s.toList rest g g
  | [t], hs, _ => by
    obtain rfl := List.mem_singleton.1 hs
    exact prefers_exactly s
  | t :: t' :: l, hs, honly => by
    by_cases ht : t = s
    · subst ht
      exact Prefers.alt_left (prefers_exactly t)
    · refine Prefers.alt_right ?_ (prefers_oneOf ?_ fun s' hs' => honly s' (by simp [hs']))
      · intro w r g g' hr hw
        obtain ⟨rfl, -⟩ := takes_exactly.1 hw
        exact ht (honly t (by simp) r hr)
      · rcases List.mem_cons.1 hs with rfl | hs
        · exact absurd rfl ht
        · exact hs

theorem prefers_oneOf_letters {s : String} {l : List String} (hs : s ∈ l)
    (hl : ∀ s ∈ l, IsLetters s.toList) (hr : ∀ c ∈ rest.head?, c.isAlpha = false)
    (hapart : ∀ s' ∈ l, s'.toList <+: s.toList → s' = s) :
    Prefers (oneOf l) seen s.toList rest g g := by
  refine prefers_oneOf hs fun s' hs' r h => hapart s' hs' ?_
  -- a longer word would have to go on with a letter of the rest
  rcases List.append_eq_append_iff.1 h with ⟨k, hk, hrest⟩ | ⟨k, hk, -⟩
  · cases k with
    | nil => rw [hk, List.append_nil]
    | cons c k =>
      have hc := (hl s' hs').2 c (by rw [hk]; simp)
      rw [hr c (by rw [hrest]; simp)] at hc
      cases hc
  · exact ⟨k, hk.symm⟩

/-! ### Edges -/

theorem prefers_wordBoundary (hb : (between seen rest).atWordBoundary) :
    Prefers wordBoundary seen [] rest g g := by
  unfold Prefers
  rw [outcomes, if_pos (by exact hb)]
  rfl

/-- A word begins where no word character stands before. -/
theorem prefers_wordBoundary_of_isWord {c : Char} (hc : Unicode.isWord c)
    (hs : seen.head?.any Unicode.isWord = false) :
    Prefers wordBoundary seen [] (c :: rest) g g :=
  prefers_wordBoundary (by rw [atWordBoundary_of_isWord hc, hs]; rfl)

theorem prefers_lineStart (hl : (between seen rest).atLineStart) :
    Prefers lineStart seen [] rest g g := by
  unfold Prefers
  rw [outcomes, if_pos (by exact hl)]
  rfl

end Pattern

end DryRun
