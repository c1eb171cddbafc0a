import DryRun.Proofs.Pattern.Matches
import DryRun.Proofs.Text

/-!
# What stands before a parenthesis

Printing calls, call sites and most function headers have an opening parenthesis, and what stands in
front of it tells them apart: the last word before it (`lastWord`) and what that word stands behind
(`beforeLastWord`).  A pattern that needs a certain way to stand before the parenthesis finds nothing
where no parenthesis stands so (`Opens.findFrom_eq_nil`), and where only one does, it finds one match at
most (`Opens.findAll_eq_singleton`).
-/

namespace DryRun

open Pattern Cursor Unicode

/-! ### The last word -/

namespace Text

/-- The word that ends at a place, or in front of the white space before the place.  Like the text
before the place it is given nearest character first. -/
def lastWord (seen : Text) : Text := (trimStart seen).takeWhile isWord

/-- What stands before that word, without the white space in between. -/
def beforeLastWord (seen : Text) : Text := trimStart ((trimStart seen).dropWhile isWord)

variable {gap name seen : Text} {c : Char}

/-- A word before white space is the last one, if it cannot be extended to the left. -/
theorem lastWord_append (hgap : gap.isBlank) (hne : name ≠ []) (hname : ∀ c ∈ name, isWord c)
    (hs : ∀ c ∈ seen.head?, isWord c = false) :
    lastWord (gap.reverse ++ (name.reverse ++ seen)) = name.reverse ∧
      beforeLastWord (gap.reverse ++ (name.reverse ++ seen)) = seen.trimStart := by
  have hname' : ∀ c ∈ name.reverse, isWord c := by simpa using hname
  have hhead : ∀ c ∈ (name.reverse ++ seen).head?, isWhiteSpace c = false :=
    head_of_append (by simpa using hne) fun c hc => isWhiteSpace_eq_false_of_isWord (hname' c hc)
  have htrim : trimStart (gap.reverse ++ (name.reverse ++ seen)) = name.reverse ++ seen :=
    trimStart_append (isBlank_reverse hgap) hhead
  rw [lastWord, beforeLastWord, htrim, List.takeWhile_append_of_pos hname',
    List.dropWhile_append_of_pos hname']
  cases seen with
  | nil => simp
  | cons c seen => simp [hs c (by simp)]

theorem lastWord_append_cons (hgap : gap.isBlank) (hws : isWhiteSpace c = false)
    (hc : isWord c = false) :
    lastWord (gap.reverse ++ c :: seen) = [] ∧ beforeLastWord (gap.reverse ++ c :: seen) = c :: seen := by
  have htrim : trimStart (gap.reverse ++ c :: seen) = c :: seen :=
    trimStart_append (isBlank_reverse hgap) (head_of_cons hws)
  have htrim' : trimStart (c :: seen) = c :: seen := trimStart_eq_self (head_of_cons hws)
  rw [lastWord, beforeLastWord, htrim]
  simp [hc, htrim']

/-- In front of a stretch of white space and of characters of some kind stands one of that kind, if the
stretch does. -/
theorem exists_head?_trimStart {p : Char → Prop} {e z : Text} {d : Char}
    (he : ∀ c ∈ e, p c ∨ isWhiteSpace c) (hd : p d) (hws : isWhiteSpace d = false) :
    ∃ c, (trimStart (e ++ d :: z)).head? = some c ∧ p c := by
  unfold trimStart
  induction e with
  | nil => exact ⟨d, by simp [hws], hd⟩
  | cons c e ih =>
    rw [List.forall_mem_cons] at he
    cases hc : isWhiteSpace c with
    | true => simpa [hc] using ih he.2
    | false => exact ⟨c, by simp [hc], he.1.resolve_right (by simp [hc])⟩

end Text

/-! ### Parentheses that stand in some way -/

/-- Whether everything that a pattern takes has an opening parenthesis in it, before which the text
stands in some way, nearest character first. -/
def Opens (way : Text → Prop) (p : Pattern) : Prop :=
  ∀ seen w rest g, Takes p seen w rest [] g → ∃ s t, w = s ++ '(' :: t ∧ way (s.reverse ++ seen)

/-- Whether in a stretch behind `seen` no opening parenthesis stands in some way. -/
def NoneOpens (way : Text → Prop) (seen u : Text) : Prop :=
  ∀ s t, u = s ++ '(' :: t → ¬ way (s.reverse ++ seen)

variable {way : Text → Prop} {p : Pattern} {seen u v w s t r rest : Text} {g g' : List (Nat × Span)}

theorem noneOpens_of_notMem (h : '(' ∉ u) : NoneOpens way seen u := by
  rintro s t rfl
  exact absurd (by simp) h

theorem noneOpens_paren (h : ¬ way seen) : NoneOpens way seen ['('] := by
  intro s t hst
  cases s with
  | nil => exact h
  | cons c s =>
    obtain ⟨-, hnil⟩ := List.cons_eq_cons.1 hst
    simp at hnil

theorem NoneOpens.append (hu : NoneOpens way seen u) (hv : NoneOpens way (u.reverse ++ seen) v) :
    NoneOpens way seen (u ++ v) := by
  intro s t hst
  rcases List.append_eq_append_iff.1 hst with ⟨s, rfl, hv'⟩ | ⟨z, rfl, hz⟩
  · simpa using hv s t hv'
  · cases z with
    | nil => simpa using hv [] t (by simpa using hz.symm)
    | cons c z =>
      obtain ⟨rfl, -⟩ := List.cons_eq_cons.1 hz
      exact hu s z rfl

theorem NoneOpens.right (h : NoneOpens way seen (u ++ v)) : NoneOpens way (u.reverse ++ seen) v := by
  rintro s t rfl
  have h := h (u ++ s) t (by simp)
  simpa using h

/-- Nothing is found where no parenthesis stands in the way of the pattern. -/
theorem Opens.findFrom_eq_nil (hp : Opens way p) (hr : NoneOpens way seen r) :
    p.findFrom seen r = [] := by
  refine Pattern.findFrom_eq_nil fun u w rest g hu h => ?_
  obtain ⟨s, t, rfl, hway⟩ := hp _ _ _ _ h
  refine hr (u ++ s) (t ++ rest) (by simp [hu]) ?_
  simpa using hway

/-- The parenthesis that stands so is known by what stands around it, if there is no other. -/
theorem NoneOpens.unique (hu : NoneOpens way seen u) (hv : NoneOpens way ('(' :: (u.reverse ++ seen)) v)
    (h : s ++ '(' :: t = u ++ '(' :: v) (hway : way (s.reverse ++ seen)) : s = u ∧ t = v := by
  rcases List.append_eq_append_iff.1 h with ⟨k, rfl, hk⟩ | ⟨k, rfl, hk⟩
  · cases k with
    | nil => exact ⟨by simp, (List.cons_eq_cons.1 hk).2⟩
    | cons c k =>
      -- an earlier one
      obtain ⟨rfl, -⟩ := List.cons_eq_cons.1 hk
      exact absurd hway (hu s k rfl)
  · cases k with
    | nil => exact ⟨by simp, (List.cons_eq_cons.1 hk).2.symm⟩
    | cons c k =>
      -- a later one
      obtain ⟨rfl, rfl⟩ := List.cons_eq_cons.1 hk
      exact absurd (by simpa using hway) (hv k t rfl)

/-- Where only one parenthesis stands in the way of the pattern, everything that is taken has that
parenthesis in it. -/
theorem Opens.exists_of_takes (hp : Opens way p) (hu : NoneOpens way seen u)
    (hv : NoneOpens way ('(' :: (u.reverse ++ seen)) v) {z : Text}
    (h : Takes p (z.reverse ++ seen) w rest [] g) (hz : z ++ (w ++ rest) = u ++ '(' :: v) :
    ∃ s t, u = z ++ s ∧ w = s ++ '(' :: t := by
  obtain ⟨s, t, rfl, hway⟩ := hp _ _ _ _ h
  have heq : (z ++ s) ++ '(' :: (t ++ rest) = u ++ '(' :: v := by rw [← hz]; simp
  exact ⟨s, t, (hu.unique hv heq (by simpa using hway)).1.symm, rfl⟩

/-- **Where only one parenthesis stands in the way of the pattern, its match is the only one.** -/
theorem Opens.findAll_eq_singleton (hp : Opens way p) (hsep : Separate p)
    (hu : NoneOpens way [] (u ++ s)) (hv : NoneOpens way ('(' :: (u ++ s).reverse) v)
    (h : p.matchAt? (between u.reverse (s ++ '(' :: v)) = some (matchOf u.reverse (s ++ ['(']) v g)) :
    p.findAll (u ++ (s ++ '(' :: v)) = [matchOf u.reverse (s ++ ['(']) v g] := by
  obtain ⟨w', rest', g', hw', hmatch, htakes⟩ := takes_of_matchAt?_eq_some h
  -- whatever is taken from an earlier place on would have this match in it
  have hnone : ∀ u₁ u₂, u = u₁ ++ u₂ → u₂ ≠ [] →
      p.matchAt? (between (u₁.reverse ++ []) (u₂ ++ (s ++ '(' :: v))) = none := by
    rintro u₁ u₂ rfl hu₂
    refine matchAt?_eq_none_iff.2 fun w rest g hw hearlier => ?_
    obtain ⟨s', t', hs', rfl⟩ := hp.exists_of_takes hu (by simpa using hv) hearlier
      (by rw [← hw]; simp)
    rw [List.append_assoc] at hs'
    obtain rfl := List.append_cancel_left hs'
    have hwhole : Takes p (u₁.reverse ++ []) (u₂ ++ (s ++ '(' :: t')) rest [] g := by
      simpa using hearlier
    refine hsep.not_within hwhole hu₂ (by simp) ?_ (by simpa using htakes)
    rw [← hw', List.append_assoc, List.cons_append]
    simpa using hw.symm
  have hfound : p.findFrom u.reverse (s ++ ['('] ++ v) =
      matchOf u.reverse (s ++ ['(']) v g :: p.findFrom ((s ++ ['(']).reverse ++ u.reverse) v :=
    findFrom_of_some (by simp) (by simpa using h)
  have hrest : p.findFrom ((s ++ ['(']).reverse ++ u.reverse) v = [] :=
    hp.findFrom_eq_nil (by simpa using hv)
  rw [hrest] at hfound
  rw [findAll_eq_findFrom, findFrom_append_of_none hnone, List.append_nil]
  simpa using hfound

end DryRun
