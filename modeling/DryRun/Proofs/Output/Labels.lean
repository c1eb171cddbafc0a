import Mathlib.Data.List.Induction
import Mathlib.Tactic.SplitIfs
import DryRun.Output
import DryRun.Proofs.Lookup
import DryRun.Proofs.Arguments.Literals

/-!
# Labelled arguments of printing calls

A call that prints several arguments prints those without a label, in their order.  A labelled one is not
printed; the last one with the label of the separator says what stands between the others, the last one
with the label of the ending what stands behind them (`printed_argumentList`).  So it does not matter where
labelled arguments stand, if their labels differ.
-/

namespace DryRun.PrintCall

open Nesting (Passes top)

variable {language : Language} {b : Bindings} {arguments arguments' : List Text} {label : Option Text}

/-- The arguments without a label. -/
def unlabelled (language : Language) (arguments : List Text) : List Text :=
  arguments.filter fun a => (Call.labelled? language a).isNone

/-- The labels and the values of the other arguments. -/
def labelled (language : Language) (arguments : List Text) : List (Text × Text) :=
  arguments.filterMap (Call.labelled? language)

/-- The value of the last argument with a label, if the language has one for this purpose. -/
def lastValue? (language : Language) (label : Option Text) (arguments : List Text) : Option Text :=
  label.bind fun l => (labelled language arguments).reverse.lookup l

/-- What the last argument with a label prints, and otherwise a text of its own. -/
def printedLast (language : Language) (b : Bindings) (label : Option Text) (arguments : List Text)
    (otherwise : Text) : Text :=
  ((lastValue? language label arguments).map (printedArgument language b)).getD otherwise

/-! ### One more argument -/

theorem lastValue?_concat_of_none {a : Text} (ha : Call.labelled? language a = none) :
    lastValue? language label (arguments ++ [a]) = lastValue? language label arguments := by
  simp [lastValue?, labelled, ha]

theorem lastValue?_concat_of_some {a name value : Text} (ha : Call.labelled? language a = some (name, value)) :
    lastValue? language label (arguments ++ [a]) =
      if some name = label then some value else lastValue? language label arguments := by
  cases label with
  | none => rfl
  | some l =>
    by_cases hl : name = l
    · simp [lastValue?, labelled, ha, hl]
    · have hne : (l == name) = false := beq_eq_false_iff_ne.2 (Ne.symm hl)
      simp [lastValue?, labelled, ha, hl, List.lookup_cons, hne]

theorem separatorLabel_ne (language : Language) {name : Text}
    (h : some name = language.printing.separatorLabel) : some name ≠ language.printing.endingLabel := by
  cases language with
  | python | swift =>
    rw [h]
    decide
  | _ => cases h

/-- **What a printout has gathered behind some arguments.** -/
theorem foldl_add (p : Printout) (arguments : List Text) :
    arguments.foldl (Printout.add language b) p = {
      pieces := p.pieces ++ (unlabelled language arguments).map (printedArgument language b)
      separator := printedLast language b language.printing.separatorLabel arguments p.separator
      ending := printedLast language b language.printing.endingLabel arguments p.ending } := by
  induction arguments using List.reverseRecOn with
  | nil =>
    have hnone : ∀ label, lastValue? language label [] = none := by
      rintro (_ | label) <;> rfl
    simp [unlabelled, printedLast, hnone]
  | append_singleton arguments a ih =>
    rw [List.foldl_append, ih, List.foldl_cons, List.foldl_nil, Printout.add]
    cases ha : Call.labelled? language a with
    | none => simp [unlabelled, printedLast, lastValue?_concat_of_none ha, ha]
    | some x =>
      obtain ⟨name, value⟩ := x
      -- an argument with a label prints nothing, but may set the separator or the ending
      have hskip : unlabelled language (arguments ++ [a]) = unlabelled language arguments := by
        simp [unlabelled, ha]
      have hlast : ∀ label otherwise, printedLast language b label (arguments ++ [a]) otherwise =
          if some name = label then printedArgument language b value
          else printedLast language b label arguments otherwise := by
        intro label otherwise
        rw [printedLast, lastValue?_concat_of_some ha]
        split_ifs <;> rfl
      dsimp only
      rw [hskip, hlast, hlast]
      split_ifs with hseparator hending
      · exact absurd hending (separatorLabel_ne language hseparator)
      · rfl
      · rfl
      · rfl

/-! ### The order of labelled arguments -/

/-- Where labels differ, their order does not matter. -/
theorem lastValue?_of_perm (h : arguments'.Perm arguments)
    (hlabels : ((labelled language arguments).map Prod.fst).Nodup) (label : Option Text) :
    lastValue? language label arguments' = lastValue? language label arguments := by
  cases label with
  | none => rfl
  | some l =>
    have hperm : (labelled language arguments').reverse.Perm (labelled language arguments).reverse :=
      ((List.reverse_perm _).trans (h.filterMap _)).trans (List.reverse_perm _).symm
    have hnodup : ((labelled language arguments).reverse.map Prod.fst).Nodup :=
      ((List.reverse_perm _).map Prod.fst).nodup_iff.2 hlabels
    exact lookup_eq_of_perm hperm hnodup

/-! ### What a call prints -/

/-- A printout of arguments as they were split. -/
theorem printed_argumentList_eq (hseveral : language.printing.several) (name : Text)
    (hclosed : ∀ a ∈ arguments, a.IsTrimmed ∧ Passes false top a top) :
    (PrintCall.mk name (Call.argumentList arguments)).printed language b =
      (arguments.foldl (Printout.add language b) ⟨[], [' '], ['\n']⟩).text := by
  have hending : defaultEnding language ⟨name, Call.argumentList arguments⟩ = ['\n'] := by
    cases language with
    | python | swift | javaScript => rfl
    | _ => cases hseveral
  rw [printed, if_pos hseveral, hending, Call.argumentList, Nesting.split_intercalate hclosed]

/-- **Labels act on the whole call wherever they stand.**  A call prints its arguments without a label in
their order, between them what the last argument with the separator's label says, and behind them what the
last one with the ending's label says; arguments with other labels are as if they were not there.  So
arguments with different labels may be moved among the others, and in JavaScript no argument has a label. -/
theorem printed_argumentList (hlanguage : language = .python ∨ language = .swift ∨ language = .javaScript)
    (name : Text) (b : Bindings) (hclosed : ∀ a ∈ arguments, a.IsTrimmed ∧ Passes false top a top) :
    (PrintCall.mk name (Call.argumentList arguments)).printed language b =
        (printedLast language b language.printing.separatorLabel arguments [' ']).intercalate
          ((unlabelled language arguments).map (printedArgument language b)) ++
        printedLast language b language.printing.endingLabel arguments ['\n'] ∧
      (∀ arguments', arguments'.Perm arguments →
        unlabelled language arguments' = unlabelled language arguments →
        ((labelled language arguments).map Prod.fst).Nodup →
        (PrintCall.mk name (Call.argumentList arguments')).printed language b =
          (PrintCall.mk name (Call.argumentList arguments)).printed language b) ∧
      (language = .javaScript → unlabelled language arguments = arguments) := by
  have hseveral : language.printing.several := by
    rcases hlanguage with rfl | rfl | rfl <;> rfl
  refine ⟨?_, fun arguments' hperm hsame hlabels => ?_, ?_⟩
  · rw [printed_argumentList_eq hseveral name hclosed, foldl_add, Printout.text, List.nil_append]
  · have hclosed' : ∀ a ∈ arguments', a.IsTrimmed ∧ Passes false top a top := fun a ha =>
      hclosed a (hperm.mem_iff.1 ha)
    have hlast : ∀ label otherwise, printedLast language b label arguments' otherwise =
        printedLast language b label arguments otherwise := by
      intro label otherwise
      rw [printedLast, lastValue?_of_perm hperm hlabels label, printedLast]
    rw [printed_argumentList_eq hseveral name hclosed', printed_argumentList_eq hseveral name hclosed,
      foldl_add, foldl_add, hsame, hlast, hlast]
  · rintro rfl
    exact List.filter_eq_self.2 fun a _ => rfl

/-- A literal with a mark of labels in it, a comparison and a name, and among them a separator, an ending that
is a call, and a label without a meaning; the labelled ones may as well stand in front. -/
theorem printed_argumentList_python :
    let arguments : List Text := ["\"a=b\"", "sep='-'", "x == y", "end=f(1, 2)", "file=out", "n"].map
      String.toList
    let arguments' : List Text := ["end=f(1, 2)", "sep='-'", "file=out", "\"a=b\"", "x == y", "n"].map
      String.toList
    let b := (∅ : Bindings).insert "n".toList ['5']
    (∀ a ∈ arguments, a.IsTrimmed ∧ Passes false top a top) ∧
      (PrintCall.mk "print".toList (Call.argumentList arguments)).printed .python b =
        "a=b-false-5f(1, 2)".toList ∧
      (PrintCall.mk "print".toList (Call.argumentList arguments')).printed .python b =
        (PrintCall.mk "print".toList (Call.argumentList arguments)).printed .python b := by
  intro arguments arguments' b
  have hclosed : ∀ a ∈ arguments, a.IsTrimmed ∧ Passes false top a top := by decide
  obtain ⟨hprinted, hmoved, -⟩ := printed_argumentList (Or.inl rfl) "print".toList b hclosed
  refine ⟨hclosed, hprinted.trans ?_, hmoved arguments' ?_ ?_ ?_⟩
  · decide
  · decide
  · decide
  · decide

end DryRun.PrintCall
