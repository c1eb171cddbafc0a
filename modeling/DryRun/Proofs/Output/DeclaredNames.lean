import DryRun.Proofs.Output.Escapes
import DryRun.Proofs.Provenance
import DryRun.Proofs.Template.Pass

/-!
# Referring to declared names

A declaration takes any word for a name, a reference only a text of letters, numeric characters and
underscores.  A word that is no such name comes to nothing as an expression, so it is printed as it
stands, and so is a marker around it, though it is bound to a value (`refersTo_declared_iff`).
-/

namespace DryRun

open Unicode

variable {language : Language} {b : Bindings} {t x v before after : Text}

/-- Whether a name prints as a value: by itself, and in a marker if the language has markers with
brackets. -/
def Language.RefersTo (language : Language) (b : Bindings) (x v : Text) : Prop :=
  printedArgument language b x = v ∧ ∀ before after, language.braces = some (before, after) →
    fillTemplate language b (before ++ (x ++ after)) = v

/-! ### Words as expressions -/

namespace Expression

/-- **A word is no calculation, no comparison and no joining.** -/
theorem eval?_eq_none_of_isWord (hx : ∀ c ∈ x, isWord c) : eval? b x = none := by
  have hne : ∀ {d : Char}, isWord d = false → ∀ c ∈ x, c ≠ d := by
    rintro d hd c hc rfl
    rw [hx c hc] at hd
    cases hd
  have hcalculate : calculate? b x = none := by
    have hsigns : ∀ d ∈ ['+', '-', '*', '/'], isWord d = false := by decide
    have hcut : cut Operation.ofText? x = none := cut_eq_none fun c s hc =>
      Operation.ofText?_eq_none fun h => hne (hsigns c h) c hc rfl
    rw [calculate?, hcut]
    rfl
  have hcompare : compare? b x = none := compare?_eq_none_of_notMem fun h => hne (by decide) '=' h rfl
  have hjoin : join? b x = none := by
    have hplus : '+' ∉ x := fun h => hne (by decide) '+' h rfl
    simp [join?, hplus]
  rw [eval?, Text.trim_of_isWord hx, hcalculate, hcompare, hjoin]
  rfl

end Expression

/-! ### Words in markers and as arguments -/

theorem printedArgument_of_isWord (hx : ∀ c ∈ x, isWord c) (hname : x.isName = false) :
    printedArgument language b x = x := by
  have htrim := Text.trim_of_isWord hx
  have hnone : StringLiteral.ofText? x = none := StringLiteral.ofText?_eq_none fun c hc => by
    rw [htrim] at hc
    exact Comment.isQuote_eq_false (by decide) (hx c hc)
  simp [printedArgument, htrim, hnone, hname, Expression.eval, Expression.eval?_eq_none_of_isWord hx]

theorem fillTemplate_of_isWord (hl : language.braces = some (before, after))
    (hx : ∀ c ∈ x, isWord c) (hname : x.isName = false) :
    fillTemplate language b (before ++ (x ++ after)) = before ++ (x ++ after) := by
  have hvalue : TemplateSyntax.value? b x = none := by
    rw [TemplateSyntax.value?, Text.trim_of_isWord hx, hname, Expression.eval?_eq_none_of_isWord hx]
    rfl
  have h := fillTemplate_bracketed (b := b) hl (isEnclosed_of_class (by decide) hx) []
  rwa [hvalue, Option.getD_none, fillTemplate_nil, List.append_nil, List.append_nil] at h

/-- **Which declared names can be referred to**: those made of letters, numeric characters and
underscores.  A name with a mark that is no letter, with a joiner or with another connector prints as
its value only if the value is the name itself and the language has no markers to print it in. -/
theorem refersTo_declared_iff (h : (declared language t).get? x = some v) :
    language.RefersTo (declared language t) x v ↔
      x.isName ∨ (language.braces = none ∧ v = x) := by
  obtain ⟨⟨hne, hword⟩, -⟩ := of_get?_declared h
  by_cases hname : x.isName
  · refine iff_of_true ⟨printedArgument_of_get? hname h, ?_⟩ (Or.inl hname)
    exact fun before after hl => fillTemplate_marker hl hname h
  · have hname : x.isName = false := by simpa using hname
    simp only [Language.RefersTo, printedArgument_of_isWord hword hname, hname, Bool.false_eq_true,
      false_or]
    constructor
    · rintro ⟨rfl, hmarker⟩
      refine ⟨Option.eq_none_iff_forall_ne_some.2 ?_, rfl⟩
      rintro ⟨before, after⟩ hl
      have hfill := hmarker before after hl
      rw [fillTemplate_of_isWord hl hword hname] at hfill
      -- a marker that stays as it is is longer than the name
      have hlength := congrArg List.length hfill
      simp only [List.length_append] at hlength
      cases language <;> cases hl <;> simp only [List.length_cons] at hlength <;> omega
    · rintro ⟨hl, rfl⟩
      refine ⟨rfl, fun before after hl' => ?_⟩
      rw [hl] at hl'
      cases hl'

/-- A vowel sign is a mark, but also a letter. -/
theorem refersTo_declared_iff_mark :
    let t := "var \u0928\u093e\u092e: String = \"v\"".toList
    let x := "\u0928\u093e\u092e".toList
    (declared .kotlin t).get? x = some "v".toList ∧ x.any (beyondAscii mark) ∧
      Language.kotlin.RefersTo (declared .kotlin t) x "v".toList := by
  intro t x
  have h : (declared .kotlin t).get? x = some "v".toList := by decide
  exact ⟨h, by decide, (refersTo_declared_iff h).2 (Or.inl (by decide))⟩

/-- An accent that is written as a mark of its own is part of the declared name, but the name is not
found. -/
theorem not_refersTo_declared :
    ¬ ∀ (language : Language) (t x v : Text), (declared language t).get? x = some v →
      language.RefersTo (declared language t) x v := by
  intro h
  have h' := h .kotlin "val e\u0301 = \"v\"".toList "e\u0301".toList "v".toList (by decide)
  exact absurd h'.1 (by decide)

end DryRun
