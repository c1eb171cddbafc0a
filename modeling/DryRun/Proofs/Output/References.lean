import DryRun.Prediction
import DryRun.Proofs.Arguments.Literals
import DryRun.Proofs.Nesting
import DryRun.Proofs.Output.Escapes
import DryRun.Proofs.Output.LineCalls
import DryRun.Proofs.Template.Pass

/-!
# Printing what a name stands for

A name may be printed by itself or in a template that consists of a marker of the name
(`Language.references`).  A snippet with one such call, and no other place where a printing call may
stand, prints the value that the name has in the end (`predict_reference`), if that has no backslash in
it.
-/

namespace DryRun

open Unicode
open StringLiteral (resolveEscapes_of_notMem trim_quoted)
open Text (beforeLastWord lastWord lastWord_append_cons)

/-- The arguments that print what a name stands for: the name, and the templates that consist of a
marker of the name. -/
def Language.references (language : Language) (x : Text) : List Text :=
  x :: language.markers.map fun (before, after) => language.template (before ++ (x ++ after))

/-- A call that prints a line with what a name stands for. -/
structure Reference (language : Language) (x : Text) where
  callee : String
  argument : Text
  callee_mem : callee ∈ language.lineCalls
  argument_mem : argument ∈ language.references x

namespace Reference

variable {language : Language} {x : Text}

def text (r : Reference language x) : Text := r.callee.toList ++ '(' :: (r.argument ++ [')'])

end Reference

variable {language : Language} {b : Bindings} {x a v u seen rest before after : Text} {c : Char}

/-! ### The arguments -/

theorem mem_references_iff : a ∈ language.references x ↔
    a = x ∨ ∃ before after, (before, after) ∈ language.markers ∧
      language.template (before ++ (x ++ after)) = a := by
  simp [Language.references]

/-- What an argument may have in it besides the name. -/
def referenceSigns : Text := ['f', '"', Comment.backtick, '$', '{', '}', '\\', '(', ')']

theorem mem_or_mem_referenceSigns (ha : a ∈ language.references x) :
    ∀ c ∈ a, c ∈ x ∨ c ∈ referenceSigns := by
  intro c hc
  rcases mem_references_iff.1 ha with rfl | ⟨before, after, hm, rfl⟩
  · exact Or.inl hc
  · have hsigns : ∀ m ∈ language.markers,
        ∀ d ∈ language.templateQuotes.1 ++ language.templateQuotes.2 :: (m.1 ++ m.2),
          d ∈ referenceSigns := by
      cases language <;> decide
    have h : c ∈ x ∨ c ∈ language.templateQuotes.1 ++ language.templateQuotes.2 :: (before ++ after) := by
      simp only [Language.template, List.mem_append, List.mem_cons, List.not_mem_nil, or_false] at hc ⊢
      tauto
    exact h.imp_right (hsigns _ hm c)

theorem notMem_reference (hx : x.isName) (ha : a ∈ language.references x)
    (hc : (isAlphanumeric c || c == '_') = false) (hsign : c ∉ referenceSigns) : c ∉ a := fun h =>
  (mem_or_mem_referenceSigns ha c h).elim (Text.notMem_of_isName hx hc) hsign

theorem trim_reference (hx : x.isName) (ha : a ∈ language.references x) : a ≠ [] ∧ a.trim = a := by
  rcases mem_references_iff.1 ha with rfl | ⟨before, after, hm, rfl⟩
  · exact ⟨(Text.forall_mem_of_isName hx).1, Text.trim_of_isName hx⟩
  · obtain ⟨-, hmarks, hquote⟩ := templateQuotes_plain language
    exact ⟨by simp [Language.template], trim_quoted hmarks hquote⟩

theorem arguments?_reference (hx : x.isAsciiName) (ha : a ∈ language.references x) :
    Nesting.arguments? (a ++ ')' :: rest) = some (a, rest) := by
  rcases mem_references_iff.1 ha with rfl | ⟨before, after, hm, rfl⟩
  · exact Nesting.arguments?_word (Text.isWord_of_isAsciiName hx)
  · obtain ⟨-, hmarks, hquote⟩ := templateQuotes_plain language
    obtain ⟨hbody, hclosed⟩ := marker_closed hm (Text.isName_of_isAsciiName hx)
    have h : Nesting.arguments? (language.templateQuotes.1 ++ language.templateQuotes.2 ::
        (before ++ (x ++ after) ++ language.templateQuotes.2 :: ')' :: rest)) = _ :=
      Nesting.arguments?_quoted hmarks hquote (StringLiteral.isBody_of_notMem hbody hclosed)
    simpa [Language.template] using h

theorem isKept_reference {style : CommentStyle} (hx : x.isAsciiName) (ha : a ∈ language.references x) :
    Comment.IsKept style a := by
  have hword : ∀ {t : Text}, (∀ c ∈ t, isWord c) → Comment.IsKept style t := fun ht =>
    Comment.isKept_of_isPlain fun c hc => Comment.isPlain_of_isWord (ht c hc)
  rcases mem_references_iff.1 ha with rfl | ⟨before, after, hm, rfl⟩
  · exact hword (Text.isWord_of_isAsciiName hx)
  · obtain ⟨-, hmarks, hquote⟩ := templateQuotes_plain language
    have hname := Text.isName_of_isAsciiName hx
    obtain ⟨hbody, hclosed⟩ := marker_closed hm hname
    have hbreak : '\n' ∉ before ++ (x ++ after) := by
      have h := notMem_reference hname ha (c := '\n') (by decide) (by decide)
      simp only [Language.template, List.mem_append, List.mem_cons, not_or] at h ⊢
      exact h.2.2.1
    exact (hword fun c hc => isWord_of_isAlpha (hmarks c hc)).append
      (Comment.isKept_quoted hquote hbody hbreak hclosed)

theorem noneOpens_reference {way : Text → Prop} (hway : ∀ z, ¬ way ('\\' :: z)) (hx : x.isName)
    (ha : a ∈ language.references x) : NoneOpens way seen a := by
  have hparen : '(' ∉ x := Text.notMem_of_isName hx (by decide)
  rcases mem_references_iff.1 ha with rfl | ⟨before, after, hm, rfl⟩
  · exact noneOpens_of_notMem hparen
  · have hsigns : ∀ m ∈ language.markers,
        '(' ∉ language.templateQuotes.1 ++ language.templateQuotes.2 :: (m.1 ++ m.2) ∨
          language.templateQuotes = ([], '"') ∧ m = (['\\', '('], [')']) := by
      cases language <;> decide
    rcases hsigns _ hm with h | ⟨hquotes, hmarker⟩
    · refine noneOpens_of_notMem ?_
      simp only [Language.template, List.mem_append, List.mem_cons, not_or] at h ⊢
      exact ⟨h.1, h.2.1, ⟨h.2.2.1, hparen, h.2.2.2⟩, h.2.1, by simp⟩
    · obtain ⟨rfl, rfl⟩ := Prod.mk.inj hmarker
      have htext : language.template (['\\', '('] ++ (x ++ [')'])) =
          ['"', '\\'] ++ (['('] ++ (x ++ [')', '"'])) := by
        simp [Language.template, hquotes]
      rw [htext]
      have hopen : NoneOpens way (['"', '\\'].reverse ++ seen) ['('] := noneOpens_paren (hway _)
      exact (noneOpens_of_notMem (by decide)).append
        (hopen.append (noneOpens_of_notMem (by simpa using hparen)))

namespace Reference

variable (r : Reference language x)

theorem isKept_text {style : CommentStyle} (hx : x.isAsciiName) : Comment.IsKept style r.text := by
  have hcallee : Comment.IsKept style (r.callee.toList ++ ['(']) :=
    Comment.isKept_of_isPlain (isPlain_callee language _ r.callee_mem)
  have hclosing : Comment.IsKept style [')'] := Comment.isKept_of_isPlain (by decide)
  have htext : r.text = r.callee.toList ++ ['('] ++ (r.argument ++ [')']) := by simp [text]
  rw [htext]
  exact hcallee.append ((isKept_reference hx r.argument_mem).append hclosing)

theorem equals_notMem_text (hx : x.isName) : '=' ∉ r.text := by
  have hcallee : '=' ∉ r.callee.toList := fun h =>
    (PrintedLine.callee_plain language _ r.callee_mem _ h).2 rfl
  simp [text, hcallee, notMem_reference hx r.argument_mem (c := '=') (by decide) (by decide)]

/-- The parenthesis of the call is the only one that may stand in some way. -/
theorem noneOpens_text {way : Text → Prop} (hway : ∀ z, ¬ way ('\\' :: z)) (hx : x.isName)
    (hcall : ¬ way (r.callee.toList.reverse ++ seen)) : NoneOpens way seen r.text := by
  have hcallee : NoneOpens way seen r.callee.toList :=
    noneOpens_of_notMem (paren_notMem_callee language _ r.callee_mem)
  have hargument : NoneOpens way (['('].reverse ++ (r.callee.toList.reverse ++ seen))
      (r.argument ++ [')']) :=
    (noneOpens_reference hway hx r.argument_mem).append (noneOpens_of_notMem (by decide))
  have h := hcallee.append ((noneOpens_paren hcall).append hargument)
  simpa [text] using h

end Reference

/-! ### What is printed -/

theorem fillTemplate_of_mem_markers (hm : (before, after) ∈ language.markers) (hx : x.isAsciiName)
    (hv : b.get? x = some v) : fillTemplate language b (before ++ (x ++ after)) = v := by
  have hname := Text.isName_of_isAsciiName hx
  rcases List.mem_append.1 hm with hbraces | hdollar
  · exact fillTemplate_marker (Option.mem_toList.1 hbraces) hname hv
  · split at hdollar
    · rename_i hl
      subst hl
      obtain ⟨rfl, rfl⟩ := Prod.mk.inj (List.mem_singleton.1 hdollar)
      have hbare := @fillTemplate_bare b x hx [] (by simp)
      rw [TemplateSyntax.value?, Text.trim_of_isName hname, if_pos hname, hv, fillTemplate_nil] at hbare
      simpa using hbare
    · cases hdollar

/-- An argument prints the value of the name, if there is nothing in it to resolve. -/
theorem printedArgument_reference (hx : x.isAsciiName) (ha : a ∈ language.references x)
    (hv : b.get? x = some v) (hb : '\\' ∉ v) : printedArgument language b a = v := by
  have hname := Text.isName_of_isAsciiName hx
  rcases mem_references_iff.1 ha with rfl | ⟨before, after, hm, rfl⟩
  · exact printedArgument_of_get? hname hv
  · have hl : language ≠ .java := by
      rintro rfl
      cases hm
    obtain ⟨hbody, hclosed⟩ := marker_closed hm hname
    rw [printedArgument_template hl (StringLiteral.isBody_of_notMem hbody hclosed), fillTemplate_of_mem_markers hm hx hv,
      resolveEscapes_of_notMem hb]

theorem printed_reference {call : PrintCall} (ha : call.arguments ∈ language.references x)
    (hx : x.isAsciiName) (hv : b.get? x = some v) (hb : '\\' ∉ v) :
    call.printed language b = v ++ call.defaultEnding language := by
  have hname := Text.isName_of_isAsciiName hx
  obtain ⟨hne, htrim⟩ := trim_reference hname ha
  have hblank := Text.isBlank_eq_false hne htrim
  have hsplit : Nesting.split false call.arguments = [call.arguments] :=
    Nesting.split_of_notMem (notMem_reference hname ha (by decide) (by decide)) hne htrim
  have hlabel : Call.labelled? language call.arguments = none := by
    refine Call.labelled?_of_notMem fun mark hmark => ?_
    cases language <;> cases hmark <;> exact notMem_reference hname ha (by decide) (by decide)
  have hprinted := printedArgument_reference hx ha hv hb
  unfold PrintCall.printed
  cases language.printing.several <;>
    simp [hsplit, hblank, hlabel, hprinted, PrintCall.Printout.add, PrintCall.Printout.text]

/-! ### Snippets with one such call -/

theorem not_namesPrint_backslash (z : Text) : ¬ language.NamesPrint ('\\' :: z) := by
  rintro ⟨⟨s, hs, hword⟩, -⟩
  have hlast : lastWord ('\\' :: z) = [] :=
    (@lastWord_append_cons [] z '\\' rfl (by decide) (by decide)).1
  rw [hlast] at hword
  exact ((isLetters_printNames language).2 s hs).1 (List.reverse_eq_nil_iff.1 hword.symm)

/-- **A snippet in which one call prints what a name stands for prints the value that the name has in
the end.** -/
theorem predict_reference (r : Reference language x) (hx : x.isAsciiName)
    (hkept : withoutComments language (u ++ (r.text ++ rest)) = u ++ (r.text ++ rest))
    (hapart : u.getLast?.any isWord = false) (hu : NoneOpens language.NamesPrint [] u)
    (hrest : NoneOpens language.NamesPrint (r.text.reverse ++ u.reverse) rest)
    (hget : (boundIn language (u ++ (r.text ++ rest))).get? x = some v) (hv : '\\' ∉ v) :
    predict language (u ++ (r.text ++ rest)) = .ok v := by
  have hname := Text.isName_of_isAsciiName hx
  have htext : u ++ (r.text ++ rest) = u ++ (r.callee.toList ++ '(' :: (r.argument ++ ')' :: rest)) := by
    simp [Reference.text]
  have hclosing : NoneOpens language.NamesPrint
      (r.argument.reverse ++ '(' :: (r.callee.toList.reverse ++ u.reverse)) ([')'] ++ rest) :=
    (noneOpens_of_notMem (by decide)).append (by simpa [Reference.text] using hrest)
  -- so the parenthesis of the call is the only one behind a printing name
  have hargument : NoneOpens language.NamesPrint ('(' :: (r.callee.toList.reverse ++ u.reverse))
      (r.argument ++ ')' :: rest) :=
    (noneOpens_reference not_namesPrint_backslash hname r.argument_mem).append hclosing
  obtain ⟨call, hcalls, hargs, hending⟩ := printCalls_eq_singleton r.callee_mem hapart
    (arguments?_reference hx r.argument_mem) hu hargument
  rw [← htext] at hcalls
  have harguments : call.arguments ∈ language.references x := by
    rw [hargs]
    exact r.argument_mem
  have hprinted := printed_reference harguments hx hget hv
  simp [predict, hkept, hcalls, hprinted, hending, dropFinalBreak]

end DryRun
