import DryRun.Proofs.Expression.Calculation
import DryRun.Proofs.Expression.Joining
import DryRun.Proofs.StringLiteral

/-!
# Comparisons

Two operands with a sign of equality or inequality between them are cut at that sign, whatever other
operators stand in their literals (`Comparison.cut_text`).  No calculation gets in the way: in front of
any operation there is a quote or the sign (`Comparison.calculate?_text`).  So the expression tells
whether the operands stand for the same text (`eval_comparison`).
-/

namespace DryRun.Expression

open Unicode
open StringLiteral (IsBody isBody_of_notMem ofText?_of_isBody ofText?_of_isName ofText?_eq_none)

variable {b : Bindings} {p : Part} {t before after : Text} {c : Char} {same strict : Bool}

/-! ### Signs -/

/-- The sign of equality or of inequality, in its short or its strict form. -/
def comparisonSign (same strict : Bool) : Text :=
  (if same then '=' else '!') :: '=' :: if strict then ['='] else []

/-- A sign is read to its end, if no further `=` follows. -/
theorem equalitySign?_comparisonSign (ht : ∀ c ∈ t.head?, c ≠ '=') :
    equalitySign? (comparisonSign same strict ++ t) = some (same, t) := by
  cases t with
  | nil => cases same <;> cases strict <;> rfl
  | cons c t =>
    have hc : c ≠ '=' := ht c rfl
    cases same <;> cases strict <;> simp [comparisonSign, equalitySign?, hc]

theorem equalitySign?_eq_none (hc : c ≠ '=') (ht : c = '!' → ∀ d ∈ t.head?, d ≠ '=') :
    equalitySign? (c :: t) = none := by
  unfold equalitySign?
  split <;> simp_all

theorem notMem_comparisonSign : ∀ d ∈ ['+', '-', '*', '/'], d ∉ comparisonSign same strict := by
  cases same <;> cases strict <;> decide

/-! ### Operands -/

namespace Part

/-- Whether a part may stand beside a sign: a literal without `=` in it, a name or a numeral. -/
def IsOperand : Part → Prop
  | literal quote body => (quote = '"' ∨ quote = '\'') ∧ '=' ∉ body ∧ IsBody quote body
  | name x => x.isName
  | numeral t => t.isNumeral

/-- The text that a part stands for in a comparison.  A name without a value stands for itself. -/
def compared (b : Bindings) : Part → Text
  | literal _ body => body
  | name x => (b.get? x).getD x
  | numeral t => t

theorem IsOperand.isTrimmed (hp : p.IsOperand) : p.text.IsTrimmed := by
  cases p with
  | literal quote body => exact isTrimmed_literal hp.1 body
  | name x => exact Text.isTrimmed_of_isName hp
  | numeral t => exact isTrimmed_of_isNumeral hp

theorem IsOperand.notMem (hp : p.IsOperand) : '=' ∉ p.text := by
  cases p with
  | literal quote body =>
    have hquote : '=' ≠ quote := by
      rcases hp.1 with rfl | rfl <;> decide
    simp [text, hquote, hp.2.1]
  | name x => exact Text.notMem_of_isName hp (by decide)
  | numeral t => exact fun h => absurd (forall_mem_of_isNumeral hp _ h) (by decide)

theorem IsOperand.last_ne (hp : p.IsOperand) : ∀ c ∈ p.text.getLast?, c ≠ '!' := by
  rintro _ hc rfl
  cases p with
  | literal quote body =>
    have hlast : (literal quote body).text.getLast? = some quote := by
      rw [text, ← List.cons_append, List.getLast?_concat]
    obtain rfl : quote = '!' := Option.some.inj (hlast.symm.trans hc)
    exact absurd hp.1 (by decide)
  | name x => exact Text.notMem_of_isName hp (by decide) (List.mem_of_mem_getLast? hc)
  | numeral t => exact absurd (forall_mem_of_isNumeral hp _ (List.mem_of_mem_getLast? hc)) (by decide)

/-- An operand begins with a quote, or no sign of an operation stands in it but one in front. -/
theorem IsOperand.head_or_tail (hp : p.IsOperand) :
    (∃ q more, p.text = q :: more ∧ (q = '"' ∨ q = '\'')) ∨
      ∀ c ∈ p.text.tail, c ∉ ['+', '-', '*', '/'] := by
  cases p with
  | literal quote body => exact Or.inl ⟨quote, body ++ [quote], rfl, hp.1⟩
  | name x =>
    have hsigns : ∀ d ∈ ['+', '-', '*', '/'], (isAlphanumeric d || d == '_') = false := by decide
    exact Or.inr fun c hc hsign => Text.notMem_of_isName hp (hsigns c hsign) (List.mem_of_mem_tail hc)
  | numeral t => exact Or.inr (tail_notMem_of_isNumeral hp)

/-- **An operand is read as the text that it stands for.** -/
theorem IsOperand.sideValue_text (hb : b.BindsNames) (hp : p.IsOperand) :
    sideValue b p.text = p.compared b := by
  cases p with
  | literal quote body =>
    have hquote : Comment.isQuote quote ∧ quote ≠ Comment.backtick := by
      rcases hp.1 with rfl | rfl <;> decide
    have hread : StringLiteral.ofText? ([] ++ quote :: (body ++ [quote])) = some ⟨[], quote, body⟩ :=
      ofText?_of_isBody (by simp) (by simp) hquote.1 hp.2.2
    rw [List.nil_append] at hread
    have hplain : StringLiteral.plainBody? ⟨[], quote, body⟩ = some body := by
      rcases hp.1 with rfl | rfl <;> rfl
    simp [sideValue, text, compared, hread, hplain]
  | name x =>
    have hx : x.isName := hp
    simp [sideValue, text, compared, ofText?_of_isName hx]
  | numeral t =>
    have ht : t.isNumeral := hp
    have hread : StringLiteral.ofText? t = none := by
      refine ofText?_eq_none fun c hc => ?_
      rw [(isTrimmed_of_isNumeral ht).trim_eq] at hc
      rcases forall_mem_of_isNumeral ht c hc with rfl | rfl | hdigit
      · rfl
      · rfl
      · exact Comment.isQuote_eq_false (by decide) hdigit
    simp [sideValue, text, compared, hread, hb.get?_of_isNumeral ht]

end Part

/-! ### The expression -/

/-- Two operands with a sign between them, and white space around the sign. -/
structure Comparison where
  left : Part
  right : Part
  same : Bool
  strict : Bool
  before : Text
  after : Text
  left_isOperand : left.IsOperand
  right_isOperand : right.IsOperand
  before_isBlank : before.isBlank
  after_isBlank : after.isBlank

namespace Comparison

def text (j : Comparison) : Text :=
  j.left.text ++ (j.before ++ (comparisonSign j.same j.strict ++ (j.after ++ j.right.text)))

variable (j : Comparison)

theorem isTrimmed_text : j.text.IsTrimmed := by
  have h := j.left_isOperand.isTrimmed.append
    (j.before ++ (comparisonSign j.same j.strict ++ j.after)) j.right_isOperand.isTrimmed
  simpa [text] using h

/-- In front of the sign there is no `=`, and no `!` that could be taken for a part of the sign. -/
theorem notMem_before : '=' ∉ j.left.text ++ j.before ∧
    ∀ c ∈ (j.left.text ++ j.before).getLast?, c ≠ '!' := by
  refine ⟨?_, ?_⟩
  · rw [List.mem_append, not_or]
    exact ⟨j.left_isOperand.notMem, Text.notMem_of_isBlank j.before_isBlank (by decide)⟩
  · intro c hc
    rw [List.getLast?_append, Option.mem_def, Option.or_eq_some_iff] at hc
    rcases hc with hc | ⟨-, hc⟩
    · rintro rfl
      exact Text.notMem_of_isBlank j.before_isBlank (by decide) (List.mem_of_mem_getLast? hc)
    · exact j.left_isOperand.last_ne c hc

/-- **A comparison is cut at its sign.** -/
theorem cut_text : cut equalitySign? j.text = some (j.left.text, j.same, j.right.text) := by
  have hleft := j.left_isOperand.isTrimmed
  have hright := j.right_isOperand.isTrimmed
  obtain ⟨hequal, hlast⟩ := j.notMem_before
  have hnext : ∀ c ∈ (j.after ++ j.right.text).head?, c ≠ '=' := by
    rintro c hc rfl
    rcases List.mem_append.1 (List.mem_of_mem_head? hc) with h | h
    · exact Text.notMem_of_isBlank j.after_isBlank (by decide) h
    · exact j.right_isOperand.notMem h
  obtain ⟨c, s, hsign⟩ : ∃ c s,
      comparisonSign j.same j.strict ++ (j.after ++ j.right.text) = c :: s := ⟨_, _, rfl⟩
  have hop : equalitySign? (c :: s) = some (j.same, j.after ++ j.right.text) :=
    hsign ▸ equalitySign?_comparisonSign hnext
  have hpass : ∀ v, v <:+ (j.left.text ++ j.before).tail → v ≠ [] →
      equalitySign? (v ++ c :: s) = none := by
    intro v hv hne
    have hsuffix := hv.trans (List.tail_suffix _)
    obtain ⟨d, v, rfl⟩ := List.exists_cons_of_ne_nil hne
    -- a sign that begins earlier would have an `=` in front, or end in the sign's own
    refine equalitySign?_eq_none (fun h => hequal (h ▸ hsuffix.subset List.mem_cons_self)) ?_
    rintro rfl e he rfl
    cases v with
    | nil =>
      obtain ⟨u, hu⟩ := hsuffix
      exact hlast '!' (by rw [← hu, List.getLast?_concat]; rfl) rfl
    | cons f v =>
      obtain rfl : f = '=' := Option.some.inj he
      exact hequal (hsuffix.subset (by simp))
  have htext : j.text = (j.left.text ++ j.before) ++ c :: s := by
    rw [text, hsign, List.append_assoc]
  rw [htext, cut_append (hleft.isBlank_append_left _) hpass hop (hright.isBlank_append_right _),
    Text.trimEnd_append j.before_isBlank hleft.last, Text.trimStart_append j.after_isBlank hright.head]

/-- **A comparison is no calculation**: what stands before an operation is no number. -/
theorem calculate?_text (hb : b.BindsNames) : calculate? b j.text = none := by
  rcases j.left_isOperand.head_or_tail with ⟨q, more, htext, hq⟩ | hnone
  · rw [text, htext]
    exact calculate?_of_quote hb hq _
  · have hstretch : j.text = (j.left.text ++ (j.before ++ comparisonSign j.same j.strict)) ++
        (j.after ++ j.right.text) := by
      simp [text]
    have hne := j.left_isOperand.isTrimmed.ne_nil
    have hblank : ∀ d ∈ ['+', '-', '*', '/'], isWhiteSpace d = false := by decide
    rw [hstretch]
    refine calculate?_append_eq_none (c := '=') hb (by simp [hne]) ?_ (by decide) (by decide)
      (by decide) (by simp [comparisonSign]) _
    intro c hc hsign
    rw [List.tail_append_of_ne_nil hne, List.mem_append, List.mem_append] at hc
    rcases hc with hc | hc | hc
    · exact hnone c hc hsign
    · exact Text.notMem_of_isBlank j.before_isBlank (hblank c hsign) hc
    · exact notMem_comparisonSign c hsign hc

end Comparison

/-- **A comparison tells whether two texts are the same.**  With a sign of equality it comes to `true`
if both operands stand for the same text and to `false` otherwise; with a sign of inequality it is the
other way round. -/
theorem eval_comparison (hb : b.BindsNames) (j : Comparison) : eval b j.text =
    if decide (j.left.compared b = j.right.compared b) = j.same then "true".toList
    else "false".toList := by
  rw [eval, eval?, j.isTrimmed_text.trim_eq, j.calculate?_text hb, compare?, j.cut_text]
  simp only [Option.bind_eq_bind, Option.bind_some, j.left_isOperand.sideValue_text hb,
    j.right_isOperand.sideValue_text hb]
  by_cases h : j.left.compared b = j.right.compared b
  · cases hsame : j.same <;> simp [h]
  · cases hsame : j.same <;> simp [h]

/-- A sign of multiplication in a literal, and one of inequality in the value that it is compared with. -/
theorem eval_comparison_unequal :
    let b := (∅ : Bindings).insert "word".toList "a*1!=".toList
    b.BindsNames ∧ eval b "'a*1!'!==\nword".toList = "true".toList := by
  intro b
  have hb : b.BindsNames := Bindings.bindsNames_empty.insert (by decide) (by rintro _ ⟨⟩; rfl) _
  have hword : b.get? "word".toList = some "a*1!=".toList := Bindings.get?_insert_self ∅ _ _
  have hbody : IsBody '\'' "a*1!".toList := isBody_of_notMem (by decide) (by decide)
  let j : Comparison :=
    { left := .literal '\'' "a*1!".toList
      right := .name "word".toList
      same := false
      strict := true
      before := []
      after := ['\n']
      left_isOperand := ⟨Or.inr rfl, by decide, hbody⟩
      right_isOperand := (by decide : Text.isName "word".toList)
      before_isBlank := by decide
      after_isBlank := by decide }
  have heval := eval_comparison hb j
  have hcompared : j.right.compared b = "a*1!=".toList := by
    show (b.get? "word".toList).getD "word".toList = _
    rw [hword]
    rfl
  rw [hcompared] at heval
  exact ⟨hb, heval⟩

end DryRun.Expression
