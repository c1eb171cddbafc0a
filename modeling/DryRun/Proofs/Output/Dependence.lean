import Mathlib.Data.List.Basic
import DryRun.Output
import DryRun.Proofs.Pattern.Groups
import DryRun.Proofs.Pieces

/-!
# What a printing call depends on

Every name that is looked up on the way to the output stands in the arguments of the call: as an
argument, in a marker of a template, or as a side, an operand or a part of an expression.  So bindings
that agree on the stretches of the arguments print the same text (`printed_eq_of_agreeOn`), and a name
that does not stand in the arguments may be bound to anything.
-/

namespace DryRun

variable {language : Language} {b b' : Bindings} {s t name value : Text}

namespace Bindings

/-- Whether two bindings agree on a text: every stretch of it has the same value in both, or none in
both. -/
def AgreeOn (t : Text) (b b' : Bindings) : Prop := ∀ x, x <:+: t → b.get? x = b'.get? x

theorem AgreeOn.mono (h : AgreeOn t b b') (hs : s <:+: t) : AgreeOn s b b' :=
  fun x hx => h x (hx.trans hs)

theorem AgreeOn.get? (h : AgreeOn t b b') : b.get? t = b'.get? t := h t List.infix_rfl

/-- Binding a name that does not stand in the text changes nothing there. -/
theorem agreeOn_insert (h : ¬ name <:+: t) (b : Bindings) (value : Text) :
    AgreeOn t (b.insert name value) b := by
  intro x hx
  rw [get?_insert, if_neg]
  rintro rfl
  exact h hx

theorem agreeOn_insertIfNew (h : ¬ name <:+: t) (b : Bindings) (value : Text) :
    AgreeOn t (b.insertIfNew name value) b := by
  intro x hx
  rw [get?_insertIfNew, if_neg]
  rintro ⟨rfl, -⟩
  exact h hx

end Bindings

open Bindings (AgreeOn)

/-! ### Expressions -/

namespace Expression

theorem operand?_congr (h : AgreeOn t b b') : operand? b t = operand? b' t := by
  simp only [operand?, Bindings.number?, h.get?]

theorem calculate?_congr (h : AgreeOn t b b') : calculate? b t = calculate? b' t := by
  unfold calculate?
  cases hcut : cut Operation.ofText? t with
  | none => rfl
  | some x =>
    obtain ⟨left, op, right⟩ := x
    obtain ⟨hl, hr⟩ := infix_of_cut suffix_of_operation hcut
    simp only [Option.bind_eq_bind, Option.bind_some, operand?_congr (h.mono hl),
      operand?_congr (h.mono hr)]

theorem sideValue_congr (h : AgreeOn t b b') : sideValue b t = sideValue b' t := by
  simp only [sideValue, h.get?]

theorem compare?_congr (h : AgreeOn t b b') : compare? b t = compare? b' t := by
  unfold compare?
  cases hcut : cut equalitySign? t with
  | none => rfl
  | some x =>
    obtain ⟨left, same, right⟩ := x
    obtain ⟨hl, hr⟩ := infix_of_cut suffix_of_equalitySign hcut
    simp only [Option.bind_eq_bind, Option.bind_some, sideValue_congr (h.mono hl),
      sideValue_congr (h.mono hr)]

theorem partValue?_congr (h : AgreeOn t b b') : partValue? b t = partValue? b' t := by
  simp only [partValue?, h.get?]

theorem join?_congr (h : AgreeOn t b b') : join? b t = join? b' t := by
  have hparts : ∀ {parts : List Text}, (∀ part ∈ parts, part <:+: t) →
      parts.mapM (fun part => partValue? b part.trim) =
        parts.mapM fun part => partValue? b' part.trim := by
    intro parts hinfix
    induction parts with
    | nil => rfl
    | cons part parts ih =>
      rw [List.forall_mem_cons] at hinfix
      have hpart := h.mono ((Text.trim_isInfix part).trans hinfix.1)
      simp only [List.mapM_cons, partValue?_congr hpart, ih hinfix.2]
  simp only [join?, hparts fun part hpart => infix_of_mem_partsFrom hpart]

theorem eval?_congr (h : AgreeOn t b b') : eval? b t = eval? b' t := by
  have h := h.mono (Text.trim_isInfix t)
  simp only [eval?, calculate?_congr h, compare?_congr h, join?_congr h]

theorem eval_congr (h : AgreeOn t b b') : eval b t = eval b' t := by
  simp only [eval, eval?_congr h]

end Expression

/-! ### Templates and arguments -/

theorem TemplateSyntax.value?_congr (h : AgreeOn t b b') : value? b t = value? b' t := by
  have h := h.mono (Text.trim_isInfix t)
  simp only [value?, h.get?, Expression.eval?_congr h]

/-- A marker is replaced by what its groups say, and they stand in the template. -/
theorem fillTemplate_congr (h : AgreeOn t b b') :
    fillTemplate language b t = fillTemplate language b' t := by
  unfold fillTemplate
  cases language.templates with
  | none => rfl
  | some s =>
    refine Pattern.replaceAll_congr fun m hm => ?_
    unfold TemplateSyntax.resolve
    cases hgroup : m.group? 1 <|> m.group? 2 with
    | none => rfl
    | some inner =>
      -- either group is a stretch of the match
      have hinner : inner <:+: t := by
        cases hone : m.group? 1 with
        | some x =>
          obtain rfl : x = inner := by simpa [hone] using hgroup
          exact Pattern.infix_of_group?_findAll hm hone
        | none =>
          have htwo : m.group? 2 = some inner := by simpa [hone] using hgroup
          exact Pattern.infix_of_group?_findAll hm htwo
      simp only [Option.bind_some, TemplateSyntax.value?_congr (h.mono hinner)]

theorem StringLiteral.printed_congr {l : StringLiteral} (h : AgreeOn l.body b b') :
    l.printed language b = l.printed language b' := by
  simp only [printed, fillTemplate_congr h]

theorem printedArgument_congr (h : AgreeOn t b b') :
    printedArgument language b t = printedArgument language b' t := by
  have htrim := h.mono (Text.trim_isInfix t)
  unfold printedArgument
  cases hl : StringLiteral.ofText? t.trim with
  | some l => exact StringLiteral.printed_congr (htrim.mono (StringLiteral.body_isInfix hl))
  | none => simp only [htrim.get?, Expression.eval_congr htrim]

/-! ### Calls -/

namespace PrintCall

theorem Printout.add_congr (h : AgreeOn t b b') (p : Printout) :
    p.add language b t = p.add language b' t := by
  unfold add
  cases hlabel : Call.labelled? language t with
  | none => simp only [printedArgument_congr h]
  | some x =>
    obtain ⟨label, value⟩ := x
    simp only [printedArgument_congr (h.mono (Call.infix_of_labelled? hlabel))]

theorem printed_congr {call : PrintCall} (h : AgreeOn call.arguments b b') :
    call.printed language b = call.printed language b' := by
  unfold printed
  have hargument : printedArgument language b call.arguments =
      printedArgument language b' call.arguments := printedArgument_congr h
  have hall : ∀ start : Printout,
      (Nesting.split false call.arguments).foldl (Printout.add language b) start =
        (Nesting.split false call.arguments).foldl (Printout.add language b') start := by
    intro start
    exact List.foldl_ext _ _ _ fun p argument hargument =>
      Printout.add_congr (h.mono (Nesting.infix_of_mem_split hargument)) p
  simp only [hall, hargument]

/-- **A call prints by the names written in it.**  Bindings that agree on every stretch of its arguments
print the same text; so a name that does not stand there may be bound, or bound again, to any value. -/
theorem printed_eq_of_agreeOn (language : Language) (call : PrintCall) :
    (∀ b b' : Bindings, AgreeOn call.arguments b b' →
      call.printed language b = call.printed language b') ∧
    ∀ (b : Bindings) (name value : Text), ¬ name <:+: call.arguments →
      call.printed language (b.insert name value) = call.printed language b ∧
        call.printed language (b.insertIfNew name value) = call.printed language b :=
  ⟨fun _ _ h => printed_congr h, fun b _ value h =>
    ⟨printed_congr (Bindings.agreeOn_insert h b value),
      printed_congr (Bindings.agreeOn_insertIfNew h b value)⟩⟩

/-- The name `ab` is not written in a call that prints `a`, though its letters are. -/
theorem printed_eq_of_agreeOn_swift :
    let call : PrintCall := ⟨"print".toList, "\"\\(a)b\", separator: b".toList⟩
    let b := ((∅ : Bindings).insert "a".toList "1".toList).insert "b".toList "-".toList
    let b' := b.insert "ab".toList "2".toList
    AgreeOn call.arguments b' b ∧ ¬ "ab".toList <:+: call.arguments ∧
      call.printed .swift b' = call.printed .swift b ∧
      call.printed .swift (b.insertIfNew "ab".toList "2".toList) = call.printed .swift b := by
  intro call b b'
  have hname : ¬ "ab".toList <:+: call.arguments := by decide
  have hagree : AgreeOn call.arguments b' b := Bindings.agreeOn_insert hname b _
  obtain ⟨hall, hbind⟩ := printed_eq_of_agreeOn .swift call
  exact ⟨hagree, hname, hall b' b hagree, (hbind b _ _ hname).2⟩

end PrintCall

end DryRun
