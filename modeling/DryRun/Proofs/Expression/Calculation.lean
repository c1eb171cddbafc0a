import DryRun.Proofs.Binary64.Integers
import DryRun.Proofs.Expression.Cutting

/-!
# Calculations with integers

An expression with two operands is cut at its operation, and a minus sign in front of either operand is
part of the operand (`cut_operation`).  Integers are read, calculated with and printed exactly, so the
expression comes to the decimal form of the result (`eval_operation`), as long as the operands and the
result have a size up to `2 ^ 53`.
-/

namespace DryRun

open Binary64 Unicode

namespace Expression

namespace Operation

/-- Whether `k` is what an operation on the integers `i` and `j` gives.  A quotient is an integer only
if nothing remains. -/
def IsResult : Operation → Int → Int → Int → Prop
  | add, i, j, k => i + j = k
  | sub, i, j, k => i - j = k
  | mul, i, j, k => i * j = k
  | div, i, j, k => j ≠ 0 ∧ i = k * j

/-- **Operations on integers are exact.** -/
theorem isInt_apply {op : Operation} {x y : Binary64} {i j k : Int} (hx : x.IsInt i) (hy : y.IsInt j)
    (h : op.IsResult i j k) (hk : k.natAbs ≤ 2 ^ 53) : (op.apply x y).IsInt k := by
  cases op with
  | add =>
    obtain rfl : i + j = k := h
    exact hx.add hy hk
  | sub =>
    obtain rfl : i - j = k := h
    exact hx.sub hy hk
  | mul =>
    obtain rfl : i * j = k := h
    exact hx.mul hy hk
  | div =>
    obtain ⟨hj, rfl⟩ : j ≠ 0 ∧ i = k * j := h
    rw [apply, hy.isZero_eq_false hj]
    exact hx.div hy hj hk

end Operation

/-! ### Operands -/

/-- How an integer is written as an operand: in decimal, or as a name that is bound to its decimal form
and does not begin with a digit. -/
inductive Writes (b : Bindings) (k : Int) : Text → Prop
  | numeral : Writes b k (Text.ofInt k)
  | name {x : Text} (isName : x.isName) (head : ∀ c ∈ x.head?, c.isDigit = false)
      (get : b.get? x = some (Text.ofInt k)) : Writes b k x

variable {b : Bindings} {i j k : Int} {x y before after : Text} {op : Operation}

theorem exists_isInt_number?_ofInt (hk : k.natAbs ≤ 2 ^ 53) :
    ∃ v, (Text.ofInt k).number? = some v ∧ v.IsInt k := by
  have h := (WholeNumeral.ofInt k).exists_isInt (by rwa [WholeNumeral.value_ofInt])
  rwa [WholeNumeral.text_ofInt, WholeNumeral.value_ofInt] at h

/-- **An operand is read as the integer that it writes.** -/
theorem Writes.exists_operand? (hx : Writes b k x) (hk : k.natAbs ≤ 2 ^ 53) :
    ∃ v, operand? b x = some v ∧ v.IsInt k := by
  obtain ⟨v, hv, hint⟩ := exists_isInt_number?_ofInt hk
  refine ⟨v, ?_, hint⟩
  cases hx with
  | numeral =>
    rw [operand?, hv]
    rfl
  | name isName head get =>
    have hnumeral := not_isNumeral_of_isName isName head
    have hnone : x.number? = none := by
      rw [Text.number?, Option.map_eq_none_iff]
      simpa [Text.isNumeral] using hnumeral
    rw [operand?, hnone, Bindings.number?, get]
    exact hv

theorem isNumeral_ofInt (k : Int) : (Text.ofInt k).isNumeral := by
  rw [← WholeNumeral.text_ofInt]
  exact (WholeNumeral.ofInt k).isNumeral_text

theorem tail_notMem_of_isNumeral (hx : x.isNumeral) : ∀ c ∈ x.tail, c ∉ ['+', '-', '*', '/'] := by
  have hsigns : ∀ d ∈ ['+', '-', '*', '/'], ¬ (d = '.' ∨ d.isDigit) := by decide
  exact fun c hc hsign => hsigns c hsign (tail_of_isNumeral hx c hc)

theorem Writes.tail_notMem (hx : Writes b k x) : ∀ c ∈ x.tail, c ∉ ['+', '-', '*', '/'] := by
  cases hx with
  | numeral => exact tail_notMem_of_isNumeral (isNumeral_ofInt k)
  | name isName =>
    have hsigns : ∀ d ∈ ['+', '-', '*', '/'], (isAlphanumeric d || d == '_') = false := by decide
    exact fun c hc hsign => Text.notMem_of_isName isName (hsigns c hsign) (List.mem_of_mem_tail hc)

theorem Writes.isTrimmed (hx : Writes b k x) : x.IsTrimmed := by
  cases hx with
  | numeral => exact isTrimmed_of_isNumeral (isNumeral_ofInt k)
  | name isName => exact Text.isTrimmed_of_isName isName

/-! ### The expression -/

theorem eval?_operation {v w : Binary64} (hx : x.IsTrimmed)
    (hnone : ∀ c ∈ x.tail, c ∉ ['+', '-', '*', '/']) (hy : y.IsTrimmed) (hv : operand? b x = some v)
    (hvi : v.IsInt i) (hw : operand? b y = some w) (hwj : w.IsInt j) (hresult : op.IsResult i j k)
    (hk : k.natAbs ≤ 2 ^ 53) (hbefore : before.isBlank) (hafter : after.isBlank) :
    eval? b (x ++ (before ++ op.sign :: (after ++ y))) = some (Text.ofInt k) := by
  rw [eval?, (isTrimmed_operation hx hy op before after).trim_eq, calculate?,
    cut_operation hx hnone hy op hbefore hafter]
  simp only [Option.bind_eq_bind, Option.bind_some, hv, hw]
  rw [(Operation.isInt_apply hvi hwj hresult hk).text_eq]
  rfl

/-- **Arithmetic on two integers is exact.**  Of two operands that write integers, with an operation
between them and any white space around it, the expression comes to the decimal form of the result, if
the operands and the result have a size up to `2 ^ 53`. -/
theorem eval_operation (hx : Writes b i x) (hy : Writes b j y) (hi : i.natAbs ≤ 2 ^ 53)
    (hj : j.natAbs ≤ 2 ^ 53) (hk : k.natAbs ≤ 2 ^ 53) (hresult : op.IsResult i j k)
    (hbefore : before.isBlank) (hafter : after.isBlank) :
    eval b (x ++ (before ++ op.sign :: (after ++ y))) = Text.ofInt k := by
  obtain ⟨v, hv, hvi⟩ := hx.exists_operand? hi
  obtain ⟨w, hw, hwj⟩ := hy.exists_operand? hj
  rw [eval, eval?_operation hx.isTrimmed hx.tail_notMem hy.isTrimmed hv hvi hw hwj hresult hk hbefore
    hafter]
  rfl

/-- The least integer of that size, given by a name, times a negative numeral on the next line. -/
theorem eval_operation_mul :
    let b := (∅ : Bindings).insert "least".toList "-9007199254740992".toList
    Writes b (-9007199254740992) "least".toList ∧ Writes b (-1) "-1".toList ∧
      Operation.mul.IsResult (-9007199254740992) (-1) 9007199254740992 ∧ Text.isBlank ['\n'] ∧
      eval b "least*\n-1".toList = "9007199254740992".toList := by
  intro b
  have hleast : Text.ofInt (-9007199254740992) = "-9007199254740992".toList := by decide +kernel
  have hone : Text.ofInt (-1) = "-1".toList := by decide +kernel
  have hproduct : Text.ofInt 9007199254740992 = "9007199254740992".toList := by decide +kernel
  have hx : Writes b (-9007199254740992) "least".toList :=
    .name (by decide) (by rintro _ ⟨⟩; rfl) (hleast ▸ Bindings.get?_insert_self ∅ _ _)
  have hy : Writes b (-1) "-1".toList := hone ▸ .numeral
  have hresult : Operation.mul.IsResult (-9007199254740992) (-1) 9007199254740992 := by
    show (-9007199254740992 : Int) * -1 = 9007199254740992
    decide
  have heval : eval b ("least".toList ++ ([] ++ Operation.mul.sign :: (['\n'] ++ "-1".toList))) =
      Text.ofInt 9007199254740992 :=
    eval_operation hx hy (by decide) (by decide) (by decide) hresult rfl (by decide)
  exact ⟨hx, hy, hresult, by decide, heval.trans hproduct⟩

end Expression

end DryRun
