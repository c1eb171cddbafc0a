import DryRun.Proofs.Pattern.Takes

/-!
# Which matches a search finds

`findFrom p seen r` are the matches of `p` in the text `r` that comes after `seen`.  A place without
a match is passed over, and behind a match the search goes on where the match ends.  If matches of a
pattern cannot overlap (`Separate`), the search finds every place where the pattern matches
(`mem_findAll_iff`).  Replacing goes by the same cut: it changes nothing if every match is replaced by
its own text (`replaceAll_eq_self`).
-/

namespace DryRun.Pattern

open Cursor

/-- The pieces of the text that comes after a place. -/
def piecesAt (p : Pattern) (c : Cursor) : List Piece := p.piecesFrom 0 c.seen c.index c.index_eq c.rest

/-- The matches of a pattern in the text that comes after `seen`. -/
def findFrom (p : Pattern) (seen r : Text) : List Match :=
  (p.piecesAt (between seen r)).filterMap Piece.match?

variable {p : Pattern} {f : Match → Text} {seen u v w r rest : Text} {g : List (Nat × Span)}

theorem findAll_eq_findFrom (t : Text) : p.findAll t = p.findFrom [] t := rfl

@[simp]
theorem findFrom_nil : p.findFrom seen [] = [] := rfl

theorem piecesFrom_skip : ∀ {u seen : Text} {n : Nat} {h : n = seen.length},
    p.piecesFrom u.length seen n h (u ++ r) = p.piecesAt (between (u.reverse ++ seen) r)
  | [], seen, n, h => by
    subst h
    rfl
  | x :: u, seen, n, h => by
    have ih := piecesFrom_skip (u := u) (h := index_succ h x)
    simp only [List.length_cons, List.cons_append, piecesFrom, ih]
    simp only [List.reverse_cons, List.append_assoc, List.singleton_append]

theorem piecesAt_of_none {x : Char} (h : p.matchAt? (between seen (x :: r)) = none) :
    p.piecesAt (between seen (x :: r)) = .plain x :: p.piecesAt (between (x :: seen) r) := by
  rw [between] at h
  simp only [piecesAt, between, piecesFrom, h, List.length_cons]

theorem length_matchOf : (matchOf seen w rest g).span.length = w.length := Span.length_of seen w rest

/-- Behind a match the text is cut where the match ends. -/
theorem piecesAt_of_some (hw : w ≠ [])
    (h : p.matchAt? (between seen (w ++ rest)) = some (matchOf seen w rest g)) :
    p.piecesAt (between seen (w ++ rest)) =
      .found (matchOf seen w rest g) :: p.piecesAt (between (w.reverse ++ seen) rest) := by
  obtain ⟨x, u, rfl⟩ := List.exists_cons_of_ne_nil hw
  rw [List.cons_append, between] at h
  simp only [List.cons_append, piecesAt, between, piecesFrom, h, length_matchOf, List.length_cons,
    Nat.add_sub_cancel, piecesFrom_skip]
  simp only [List.reverse_cons, List.append_assoc, List.singleton_append, List.length_append,
    List.length_cons]

theorem length_le_of_cons_eq_append {x : Char} {n : Nat} (hr : x :: r = w ++ rest) (hw : w ≠ [])
    (hn : (x :: r).length ≤ n + 1) : rest.length ≤ n := by
  have h1 := congrArg List.length hr
  have h2 := List.length_pos_iff.2 hw
  simp only [List.length_cons, List.length_append] at h1 hn
  omega

theorem findFrom_cons_of_none {x : Char} (h : p.matchAt? (between seen (x :: r)) = none) :
    p.findFrom seen (x :: r) = p.findFrom (x :: seen) r := by
  simp only [findFrom, piecesAt_of_none h, List.filterMap_cons, Piece.match?]

/-- A search passes over a stretch in which the pattern matches nowhere. -/
theorem findFrom_append_of_none : ∀ {u seen : Text},
    (∀ u₁ u₂, u = u₁ ++ u₂ → u₂ ≠ [] → p.matchAt? (between (u₁.reverse ++ seen) (u₂ ++ r)) = none) →
    p.findFrom seen (u ++ r) = p.findFrom (u.reverse ++ seen) r
  | [], seen, _ => rfl
  | x :: u, seen, h => by
    have hx : p.matchAt? (between seen (x :: (u ++ r))) = none := h [] (x :: u) rfl (by simp)
    rw [List.cons_append, findFrom_cons_of_none hx, findFrom_append_of_none fun u₁ u₂ hu hu₂ => ?_]
    · simp
    · simpa using h (x :: u₁) u₂ (by simp [hu]) hu₂

theorem findFrom_eq_nil
    (h : ∀ u w rest g, r = u ++ (w ++ rest) → ¬ Takes p (u.reverse ++ seen) w rest [] g) :
    p.findFrom seen r = [] := by
  have hnone : ∀ u₁ u₂, r = u₁ ++ u₂ → u₂ ≠ [] →
      p.matchAt? (between (u₁.reverse ++ seen) (u₂ ++ [])) = none := by
    intro u₁ u₂ hu _
    refine matchAt?_eq_none_iff.2 fun w rest g hw => ?_
    rw [List.append_nil] at hw
    exact h u₁ w rest g (by rw [hu, hw])
  have hfound := findFrom_append_of_none hnone
  rw [List.append_nil] at hfound
  rw [hfound]
  rfl

theorem findFrom_of_some (hw : w ≠ [])
    (h : p.matchAt? (between seen (w ++ rest)) = some (matchOf seen w rest g)) :
    p.findFrom seen (w ++ rest) =
      matchOf seen w rest g :: p.findFrom (w.reverse ++ seen) rest := by
  simp only [findFrom, piecesAt_of_some hw h, List.filterMap_cons, Piece.match?]

/-! ### Every match -/

/-- Matches of the pattern take some text, and no match begins within another. -/
structure Separate (p : Pattern) : Prop where
  ne_nil : ∀ {seen w rest g}, Takes p seen w rest [] g → w ≠ []
  not_within : ∀ {seen u v rest g w rest' g'}, Takes p seen (u ++ v) rest [] g → u ≠ [] → v ≠ [] →
    v ++ rest = w ++ rest' → ¬ Takes p (u.reverse ++ seen) w rest' [] g'

theorem matchAt?_of_mem_piecesFrom {m : Match} : ∀ {r seen : Text} {skip n : Nat}
    {h : n = seen.length}, .found m ∈ p.piecesFrom skip seen n h r →
      ∃ u v, r = u ++ v ∧ p.matchAt? (between (u.reverse ++ seen) v) = some m
  | [], _, _, _, _, hm => by cases hm
  | x :: r, seen, skip, n, h, hm => by
    subst h
    -- a match that is found later is a match at a later place
    have hlater : ∀ {skip : Nat}, .found m ∈ p.piecesFrom skip (x :: seen) _ (index_succ rfl x) r →
        ∃ u v, x :: r = u ++ v ∧ p.matchAt? (between (u.reverse ++ seen) v) = some m := by
      intro skip hm
      obtain ⟨u, v, rfl, hv⟩ := matchAt?_of_mem_piecesFrom hm
      exact ⟨x :: u, v, rfl, by simpa using hv⟩
    cases skip with
    | succ skip => exact hlater hm
    | zero =>
      rw [piecesFrom] at hm
      cases hhere : p.matchAt? ⟨seen, x :: r, seen.length, rfl⟩ with
      | none =>
        simp only [hhere, List.mem_cons, reduceCtorEq, false_or] at hm
        exact hlater hm
      | some m' =>
        simp only [hhere, List.mem_cons, Piece.found.injEq] at hm
        rcases hm with rfl | hm
        · exact ⟨[], x :: r, rfl, hhere⟩
        · exact hlater hm

theorem matchAt?_of_mem_findFrom {m : Match} (h : m ∈ p.findFrom seen r) :
    ∃ u v, r = u ++ v ∧ p.matchAt? (between (u.reverse ++ seen) v) = some m := by
  obtain ⟨piece, hpiece, hm⟩ := List.mem_filterMap.1 h
  cases piece with
  | plain c => cases hm
  | found m' =>
    obtain rfl := Option.some.inj hm
    exact matchAt?_of_mem_piecesFrom hpiece

theorem takes_of_mem_findAll {m : Match} {t : Text} (h : m ∈ p.findAll t) :
    ∃ u w rest g, t = u ++ (w ++ rest) ∧ m = matchOf u.reverse w rest g ∧
      Takes p u.reverse w rest [] g := by
  rw [findAll_eq_findFrom] at h
  obtain ⟨u, v, rfl, hm⟩ := matchAt?_of_mem_findFrom h
  rw [List.append_nil] at hm
  obtain ⟨w, rest, g, rfl, rfl, hw⟩ := takes_of_matchAt?_eq_some hm
  exact ⟨u, w, rest, g, rfl, rfl, hw⟩

/-- A search comes to every place where the pattern matches: no match is swallowed by another one. -/
theorem exists_findFrom_append (hp : Separate p) {m : Match} :
    ∀ {n : Nat} {seen u v : Text}, u.length ≤ n →
      p.matchAt? (between (u.reverse ++ seen) v) = some m →
        ∃ l, p.findFrom seen (u ++ v) = l ++ p.findFrom (u.reverse ++ seen) v
  | _, seen, [], v, _, _ => ⟨[], rfl⟩
  | n + 1, seen, x :: u, v, hn, h => by
    cases hm : p.matchAt? (between seen (x :: (u ++ v))) with
    | none =>
      have ih : ∃ l, p.findFrom (x :: seen) (u ++ v) = l ++ p.findFrom (u.reverse ++ x :: seen) v :=
        exists_findFrom_append hp (n := n) (by simpa using hn) (by simpa using h)
      obtain ⟨l, hl⟩ := ih
      exact ⟨l, by rw [List.cons_append, findFrom_cons_of_none hm, hl]; simp⟩
    | some m' =>
      obtain ⟨w, rest, g, hr, rfl, hw⟩ := takes_of_matchAt?_eq_some hm
      have hne := hp.ne_nil hw
      have hr : x :: u ++ v = w ++ rest := hr
      have hfound : p.findFrom seen (x :: u ++ v) =
          matchOf seen w rest g :: p.findFrom (w.reverse ++ seen) rest := by
        rw [hr]
        exact findFrom_of_some hne (hr ▸ hm)
      -- the match at the start ends before `v`, or else the one at `v` would begin within it
      rcases List.append_eq_append_iff.1 hr with ⟨u', hu, hv⟩ | ⟨u', hu, hv⟩
      · cases u' with
        | nil =>
          rw [List.append_nil] at hu
          obtain rfl : v = rest := hv
          exact ⟨[matchOf seen w v g], by rw [hfound, hu]; rfl⟩
        | cons y u' =>
          obtain ⟨w', rest', g', hvw, -, hw'⟩ := takes_of_matchAt?_eq_some h
          rw [hu] at hw
          exact absurd hw' (hp.not_within hw (by simp) (by simp) (hv.symm.trans hvw))
      · subst hv
        have hlen := length_le_of_cons_eq_append hu hne hn
        have ih : ∃ l, p.findFrom (w.reverse ++ seen) (u' ++ v) =
            l ++ p.findFrom (u'.reverse ++ (w.reverse ++ seen)) v :=
          exists_findFrom_append hp hlen (by simpa [hu] using h)
        obtain ⟨l, hl⟩ := ih
        exact ⟨matchOf seen w (u' ++ v) g :: l, by rw [hfound, hl, hu]; simp⟩

theorem mem_findFrom_of_matchAt? (hp : Separate p) {m : Match}
    (h : p.matchAt? (between (u.reverse ++ seen) v) = some m) : m ∈ p.findFrom seen (u ++ v) := by
  obtain ⟨l, hl⟩ := exists_findFrom_append hp le_rfl h
  obtain ⟨w, rest, g, rfl, rfl, hw⟩ := takes_of_matchAt?_eq_some h
  rw [hl, findFrom_of_some (hp.ne_nil hw) h]
  simp

/-- **A search finds every place where a pattern matches**, if its matches cannot overlap. -/
theorem mem_findAll_iff (hp : Separate p) {m : Match} {t : Text} :
    m ∈ p.findAll t ↔ ∃ u v, t = u ++ v ∧ p.matchAt? (between u.reverse v) = some m := by
  rw [findAll_eq_findFrom]
  constructor
  · intro h
    obtain ⟨u, v, rfl, hm⟩ := matchAt?_of_mem_findFrom h
    exact ⟨u, v, rfl, by simpa using hm⟩
  · rintro ⟨u, v, rfl, hm⟩
    exact mem_findFrom_of_matchAt? hp (by simpa using hm)

/-! ### Replacing -/

/-- The text that comes after `seen` with every match replaced. -/
def replaceFrom (p : Pattern) (f : Match → Text) (seen r : Text) : Text :=
  (p.piecesAt (between seen r)).flatMap (Piece.replace f)

theorem replaceAll_eq_replaceFrom (t : Text) : p.replaceAll f t = p.replaceFrom f [] t := rfl

theorem replaceFrom_of_none {x : Char} (h : p.matchAt? (between seen (x :: r)) = none) :
    p.replaceFrom f seen (x :: r) = x :: p.replaceFrom f (x :: seen) r := by
  rw [replaceFrom, piecesAt_of_none h]
  rfl

theorem replaceFrom_of_some (hw : w ≠ [])
    (h : p.matchAt? (between seen (w ++ rest)) = some (matchOf seen w rest g)) :
    p.replaceFrom f seen (w ++ rest) =
      f (matchOf seen w rest g) ++ p.replaceFrom f (w.reverse ++ seen) rest := by
  rw [replaceFrom, piecesAt_of_some hw h]
  rfl

/-- A text that is one match is replaced as a whole. -/
theorem replaceAll_of_matchAt? {t : Text} (ht : t ≠ [])
    (h : p.matchAt? (between [] t) = some (matchOf [] t [] g)) :
    p.replaceAll f t = f (matchOf [] t [] g) := by
  have h' : p.matchAt? (between [] (t ++ [])) = some (matchOf [] t [] g) := by
    rw [List.append_nil]
    exact h
  have hreplace : p.replaceFrom f [] (t ++ []) = f (matchOf [] t [] g) ++ [] :=
    replaceFrom_of_some ht h'
  rwa [List.append_nil, List.append_nil, ← replaceAll_eq_replaceFrom] at hreplace

/-- Replacing every match by its own text changes nothing. -/
theorem replaceAll_eq_self {t : Text}
    (h : ∀ {seen w rest g}, t = seen.reverse ++ (w ++ rest) → Takes p seen w rest [] g →
      w ≠ [] ∧ f (matchOf seen w rest g) = w) : p.replaceAll f t = t := by
  have hreplace : ∀ (n : Nat) (seen r : Text), r.length ≤ n → t = seen.reverse ++ r →
      p.replaceFrom f seen r = r := by
    intro n
    induction n with
    | zero =>
      intro seen r hn _
      rw [List.eq_nil_of_length_eq_zero (Nat.le_zero.1 hn)]
      rfl
    | succ n ih =>
      intro seen r hn ht
      cases r with
      | nil => rfl
      | cons x r =>
        cases hm : p.matchAt? (between seen (x :: r)) with
        | none =>
          rw [replaceFrom_of_none hm, ih (x :: seen) r (by simpa using hn) (by simpa using ht)]
        | some m =>
          obtain ⟨w, rest, g, hr, rfl, hw⟩ := takes_of_matchAt?_eq_some hm
          rw [hr] at ht hm
          obtain ⟨hne, hf⟩ := h ht hw
          have hlen := length_le_of_cons_eq_append hr hne hn
          rw [hr, replaceFrom_of_some hne hm, ih (w.reverse ++ seen) rest hlen (by simpa using ht), hf]
  rw [replaceAll_eq_replaceFrom]
  exact hreplace t.length [] t le_rfl rfl

end DryRun.Pattern
