import DryRun.Prediction
import DryRun.Proofs.Nesting
import DryRun.Proofs.Output.LineCalls
import DryRun.Proofs.Unbound

/-!
# What printing binds

The names that a printing program binds are bound by what its messages say: a message may spell a
declaration, or a function header and a call.  `isEmpty_bindingsOf_printingProgram_iff` says when none
is bound.  Messages are not left alone as data, so printing is not free of bindings in general
(`not_isEmpty_bindingsOf_printingProgram`).
-/

namespace DryRun

open Comment PrintedLine

variable {language : Language}

/-! ### Printing programs have no comments -/

/-- A printed line is kept as it is: a comment in its message is none. -/
theorem isKept_text (style : CommentStyle) (l : PrintedLine language) : IsKept style l.text := by
  obtain ⟨hquote, hbackslash, hbreak⟩ := l.message_plain
  have hopening : IsKept style (l.callee.toList ++ ['(']) :=
    isKept_of_isPlain (isPlain_callee language _ l.callee_mem)
  have hmessage : IsKept style ('"' :: (l.message ++ ['"'])) :=
    isKept_quoted (by decide) hquote hbreak (StringLiteral.endsOpen_of_notMem hbackslash)
  have hclosing : IsKept style l.closing := isKept_of_isPlain fun c hc => (l.closing_plain c hc).2.2
  have htext : l.text = l.callee.toList ++ ['('] ++ ('"' :: (l.message ++ ['"']) ++ l.closing) := by
    simp [PrintedLine.text, opening]
  rw [htext]
  exact hopening.append (hmessage.append hclosing)

theorem isKept_followed (style : CommentStyle) (lines : List (PrintedLine language)) :
    IsKept style (followed lines) := by
  have hbreak : IsKept style ['\n'] := isKept_of_isPlain (by decide)
  induction lines with
  | nil => exact ⟨rfl, rfl⟩
  | cons l lines ih => exact (hbreak.append (isKept_text style l)).append ih

theorem withoutComments_printingProgram (lines : List (PrintedLine language)) :
    withoutComments language (printingProgram lines) = printingProgram lines := by
  cases lines with
  | nil => rfl
  | cons l lines =>
    rw [printingProgram_cons]
    exact ((isKept_text _ l).append (isKept_followed _ lines)).withoutComments_eq

/-! ### Every line prints -/

theorem exists_around {lines : List (PrintedLine language)} {l : PrintedLine language}
    (hl : l ∈ lines) : ∃ lead tail : Text, printingProgram lines = lead ++ (l.text ++ tail) ∧
      lead.getLast?.any Unicode.isWord = false := by
  cases lines with
  | nil => cases hl
  | cons k lines =>
    rw [printingProgram_cons]
    rcases List.mem_cons.1 hl with rfl | hl
    · exact ⟨[], followed lines, rfl, rfl⟩
    · obtain ⟨lines₁, lines₂, rfl⟩ := List.append_of_mem hl
      refine ⟨k.text ++ followed lines₁ ++ ['\n'], followed lines₂, ?_, ?_⟩
      · simp [followed]
      · rw [List.getLast?_concat]
        rfl

/-- **Every line prints its message**: its call is found, with the literal as its argument, and ends
the line. -/
theorem exists_printCall {lines : List (PrintedLine language)} {l : PrintedLine language}
    (hl : l ∈ lines) : ∃ call ∈ printCalls language (printingProgram lines),
      call.arguments = '"' :: (l.message ++ ['"']) ∧ call.defaultEnding language = ['\n'] := by
  obtain ⟨lead, tail, hprogram, hlead⟩ := exists_around hl
  obtain ⟨object, name, hcallee, hobject, hname, hline⟩ := callee_prints language _ l.callee_mem
  have hargs : Nesting.arguments? ('"' :: (l.message ++ '"' :: ')' :: (l.ending ++ tail))) =
      some ('"' :: (l.message ++ ['"']), l.ending ++ tail) :=
    @Nesting.arguments?_quoted '"' l.message _ [] (by simp) (by decide)
      (StringLiteral.isBody_of_notMem l.message_plain.1
        (StringLiteral.endsOpen_of_notMem l.message_plain.2.1))
  refine ⟨⟨name, '"' :: (l.message ++ ['"'])⟩, ?_, rfl, ?_⟩
  · rw [← map_snd_placedCalls, List.mem_map]
    refine ⟨(lead ++ object, _), mem_placedCalls_iff.2 ⟨name ++ '(' :: _, ?_, lead, object, [], _, _,
      rfl, hlead, hobject, hname, rfl, rfl, hargs⟩, rfl⟩
    rw [hprogram, l.text_append]
    simp [opening, closing, hcallee]
  · simp [PrintCall.defaultEnding, hline]

/-! ### Bindings -/

/-- A printing program declares nothing if and only if no message does, except in Python, where a
declaration begins a line. -/
theorem isEmpty_declared_printingProgram_iff (lines : List (PrintedLine language)) :
    (declared language (printingProgram lines)).isEmpty ↔
      language = .python ∨ ∀ l ∈ lines, (declared language l.message).isEmpty := by
  by_cases hl : language = .python
  · subst hl
    simpa using isEmpty_declared_iff.2 (declarations_program_python lines)
  · simp only [isEmpty_declared_iff, strings_program hl, numbers_program hl, truths_program hl,
      List.flatMap_eq_nil_iff, hl, false_or]
    constructor
    · rintro ⟨h1, h2, h3⟩ l hm
      exact ⟨h1 l hm, h2 l hm, h3 l hm⟩
    · intro h
      exact ⟨fun l hm => (h l hm).1, fun l hm => (h l hm).2.1, fun l hm => (h l hm).2.2⟩

/-- **When printing binds nothing**: if no message spells a declaration, which in Python none does,
and no call site that stands in the program, in a message or around one, gives a value to a parameter
of a function whose header stands in it. -/
theorem isEmpty_bindingsOf_printingProgram_iff (lines : List (PrintedLine language)) :
    (bindingsOf language (printingProgram lines)).isEmpty ↔
      (language = .python ∨ ∀ l ∈ lines, (declared language l.message).isEmpty) ∧
        ∀ (site : Call.Site (printingProgram lines)) (s : Signature),
          site.Calls (signatures language (printingProgram lines)) s →
            ¬ Call.Gives language s site.rest := by
  rw [bindingsOf, withoutComments_printingProgram, boundIn, isEmpty_afterCalls_iff,
    isEmpty_declared_printingProgram_iff]

/-- A message that spells a declaration makes one. -/
theorem not_isEmpty_bindingsOf_printingProgram :
    ¬ ∀ (language : Language) (lines : List (PrintedLine language)),
      (bindingsOf language (printingProgram lines)).isEmpty := by
  intro h
  have h' := h .kotlin [⟨"println", "val x = 5".toList, [], by decide, by decide, by simp⟩]
  exact absurd h' (by decide)

end DryRun
