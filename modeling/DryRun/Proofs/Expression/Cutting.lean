import DryRun.Expression
import DryRun.Proofs.Numeral
import DryRun.Proofs.Pieces

/-!
# Where an expression is cut

An expression is cut at the first operator that has something on both sides.  So it is cut behind a
stretch in which no operator begins (`cut_append`), somewhere if an operator stands in it anywhere
(`exists_cut`), and nowhere if none does (`cut_eq_none`); and such a stretch belongs to the left side
(`mem_of_cut`).  A minus sign in front of an operand of a calculation is part of the operand
(`cut_operation`).
-/

namespace DryRun.Expression

open Unicode

section

variable {α : Type} {operator? : Text → Option (α × Text)} {op : α} {s t u left right l r : Text}
  {c : Char}

/-! ### Texts without an operator -/

theorem cutFrom_append (h : ∀ v, v <:+ u → v ≠ [] → operator? (v ++ t) = none) :
    cutFrom operator? left (u ++ t) = cutFrom operator? (u.reverse ++ left) t := by
  induction u generalizing left with
  | nil => rfl
  | cons c u ih =>
    have hc : operator? (c :: (u ++ t)) = none := h (c :: u) List.suffix_rfl (by simp)
    rw [List.cons_append, cutFrom, hc, ih fun v hv => h v (hv.trans (List.suffix_cons c u))]
    simp

/-- Where no operator begins, a text is not cut. -/
theorem cutFrom_eq_none (h : ∀ s, s <:+ t → s ≠ [] → operator? s = none) :
    cutFrom operator? left t = none := by
  have happend : cutFrom operator? left (t ++ []) = cutFrom operator? (t.reverse ++ left) [] :=
    cutFrom_append fun v hv hne => by rw [List.append_nil]; exact h v hv hne
  rwa [List.append_nil] at happend

/-- Nor is one in which none of the characters begins an operator. -/
theorem cut_eq_none (h : ∀ c s, c ∈ t → operator? (c :: s) = none) : cut operator? t = none := by
  cases t with
  | nil => rfl
  | cons c t =>
    refine cutFrom_eq_none fun s hs hne => ?_
    obtain ⟨d, s, rfl⟩ := List.exists_cons_of_ne_nil hne
    exact h d s (List.mem_cons_of_mem c (hs.subset List.mem_cons_self))

/-! ### Texts with an operator -/

theorem cutFrom_of_operator (hop : operator? (c :: s) = some (op, right))
    (hleft : left.isBlank = false) (hright : right.isBlank = false) :
    cutFrom operator? left (c :: s) = some (Text.trimEnd left.reverse, op, right.trimStart) := by
  rw [cutFrom, hop]
  simp [hleft, hright]

/-- **A text is cut at its first operator**, if that has something on both sides. -/
theorem cut_append (hu : u.isBlank = false)
    (hnone : ∀ v, v <:+ u.tail → v ≠ [] → operator? (v ++ c :: s) = none)
    (hop : operator? (c :: s) = some (op, right)) (hright : right.isBlank = false) :
    cut operator? (u ++ c :: s) = some (u.trimEnd, op, right.trimStart) := by
  cases u with
  | nil => cases hu
  | cons d u =>
    have hleft : Text.isBlank (u.reverse ++ [d]) = false := by
      rw [← hu]
      simp [Text.isBlank, Bool.and_comm]
    have hpass : cutFrom operator? [d] (u ++ c :: s) = cutFrom operator? (u.reverse ++ [d]) (c :: s) :=
      cutFrom_append hnone
    rw [List.cons_append, cut, hpass, cutFrom_of_operator hop hleft hright]
    simp

theorem exists_cutFrom (hleft : left.isBlank = false) (hop : operator? (c :: s) = some (op, right))
    (hright : right.isBlank = false) : ∃ x, cutFrom operator? left (u ++ c :: s) = some x := by
  induction u generalizing left with
  | nil => exact ⟨_, cutFrom_of_operator hop hleft hright⟩
  | cons d u ih =>
    have hlater : ∃ x, cutFrom operator? (d :: left) (u ++ c :: s) = some x := by
      refine ih ?_
      simp only [Text.isBlank, List.all_cons, Bool.and_eq_false_iff]
      exact Or.inr hleft
    rw [List.cons_append, cutFrom]
    cases operator? (d :: (u ++ c :: s)) with
    | none => exact hlater
    | some x =>
      obtain ⟨op', right'⟩ := x
      dsimp only
      split
      · -- an operator with a blank side is passed over
        exact hlater
      · exact ⟨_, rfl⟩

theorem exists_cut (hd : ∀ d ∈ u.head?, isWhiteSpace d = false) (hu : u ≠ [])
    (hop : operator? (c :: s) = some (op, right)) (hright : right.isBlank = false) :
    ∃ x, cut operator? (u ++ c :: s) = some x := by
  obtain ⟨d, u, rfl⟩ := List.exists_cons_of_ne_nil hu
  have hleft : Text.isBlank [d] = false := by
    simp [Text.isBlank, hd d (by simp)]
  exact exists_cutFrom hleft hop hright

/-! ### The left side -/

/-- Where no operator begins behind its first character, a stretch belongs to the left side. -/
theorem mem_of_cut (hu : u ≠ []) (hnone : ∀ v, v <:+ u.tail → v ≠ [] → operator? (v ++ t) = none)
    (hc : isWhiteSpace c = false) (hmem : c ∈ u) (h : cut operator? (u ++ t) = some (l, op, r)) :
    c ∈ l := by
  obtain ⟨d, u, rfl⟩ := List.exists_cons_of_ne_nil hu
  have hpass : cutFrom operator? [d] (u ++ t) = cutFrom operator? (u.reverse ++ [d]) t :=
    cutFrom_append hnone
  rw [List.cons_append, cut, hpass] at h
  obtain ⟨w, -, -, -, -, rfl, -⟩ := exists_of_cutFrom h
  refine Text.mem_trimEnd ?_ hc
  simpa using List.mem_append_left w hmem

end

/-! ### Operations -/

variable {x y before after : Text}

namespace Operation

/-- The sign of an operation. -/
def sign : Operation → Char
  | add => '+'
  | sub => '-'
  | mul => '*'
  | div => '/'

theorem ofText?_sign (op : Operation) (t : Text) : ofText? (op.sign :: t) = some (op, t) := by
  cases op <;> rfl

theorem eq_sign_of_ofText? {op : Operation} {t right : Text} (h : ofText? t = some (op, right)) :
    t = op.sign :: right := by
  unfold ofText? at h
  split at h <;> cases h <;> rfl

theorem ofText?_eq_none {c : Char} {t : Text} (hc : c ∉ ['+', '-', '*', '/']) :
    ofText? (c :: t) = none := by
  unfold ofText?
  split <;> simp_all

end Operation

theorem isTrimmed_operation (hx : x.IsTrimmed) (hy : y.IsTrimmed) (op : Operation) (before after : Text) :
    Text.IsTrimmed (x ++ (before ++ op.sign :: (after ++ y))) := by
  have h := hx.append (before ++ op.sign :: after) hy
  rwa [List.append_assoc, List.cons_append] at h

/-- **An expression is cut at the first operation that does not begin it**, and the white space around
the sign is dropped. -/
theorem cut_operation (hx : x.IsTrimmed) (hnone : ∀ c ∈ x.tail, c ∉ ['+', '-', '*', '/'])
    (hy : y.IsTrimmed) (op : Operation) (hbefore : before.isBlank) (hafter : after.isBlank) :
    cut Operation.ofText? (x ++ (before ++ op.sign :: (after ++ y))) = some (x, op, y) := by
  have hblank : ∀ d ∈ ['+', '-', '*', '/'], isWhiteSpace d = false := by decide
  have hpass : ∀ v, v <:+ (x ++ before).tail → v ≠ [] →
      Operation.ofText? (v ++ op.sign :: (after ++ y)) = none := by
    intro v hv hne
    obtain ⟨c, v, rfl⟩ := List.exists_cons_of_ne_nil hne
    -- such a stretch begins in the operand or in the white space behind it
    have hc := hv.subset (List.mem_cons_self)
    rw [List.tail_append_of_ne_nil hx.ne_nil, List.mem_append] at hc
    rcases hc with hc | hc
    · exact Operation.ofText?_eq_none (hnone c hc)
    · exact Operation.ofText?_eq_none fun hsign => Text.notMem_of_isBlank hbefore (hblank c hsign) hc
  rw [← List.append_assoc, cut_append (hx.isBlank_append_left before) hpass (op.ofText?_sign _)
    (hy.isBlank_append_right after), Text.trimEnd_append hbefore hx.last,
    Text.trimStart_append hafter hy.head]

end DryRun.Expression
