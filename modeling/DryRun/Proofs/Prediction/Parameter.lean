import DryRun.Proofs.CallSites
import DryRun.Proofs.Definitions
import DryRun.Proofs.Output.References

/-!
# Printing a parameter

A snippet that defines a function which only prints its parameter, and then calls it with plain strings on
lines of their own, prints the argument of the last call (`predict_callingProgram`), whatever the strings
spell.  In front of the parenthesis of such a call stands the function's name behind the end of a
statement, which is neither a header nor a printing call; and the last call site of the snippet is that of
the last call, which replaces what the earlier ones gave.
-/

namespace DryRun

open Pattern Cursor Unicode
open Text (beforeLastWord lastWord)

/-! ### The program -/

/-- A function whose body prints what its parameter stands for. -/
structure PrintingFunction (language : Language) extends Definition language where
  /-- The white space in front of the printing call. -/
  indent : Text
  reference : Reference language parameter
  /-- What ends the body. -/
  ending : Text
  /-- The name is not that of a function which prints. -/
  name_apart : language.printObject = [] → ∀ s ∈ language.printNames, name ≠ s.toList
  indent_blank : indent.isBlank
  ending_plain : ∀ c ∈ ending, c = ';' ∨ c = '}' ∨ isWhiteSpace c

/-- A call with a plain string on a line of its own. -/
structure StringCall where
  value : Text
  ending : Text
  quote_notMem : '"' ∉ value
  backslash_notMem : '\\' ∉ value
  break_notMem : '\n' ∉ value
  paren_notMem : '(' ∉ value
  ending_plain : ∀ c ∈ ending, c = ';' ∨ isWhiteSpace c

namespace StringCall

/-- What stands behind the opening parenthesis. -/
def tail (c : StringCall) : Text := '"' :: (c.value ++ '"' :: ')' :: c.ending)

/-- The lines of calls of a function. -/
def lines (name : Text) (calls : List StringCall) : Text :=
  calls.flatMap fun c => '\n' :: (name ++ '(' :: c.tail)

end StringCall

variable {language : Language}

def PrintingFunction.text (f : PrintingFunction language) : Text :=
  f.toDefinition.text ++ (f.indent ++ (f.reference.text ++ f.ending))

/-- The function and then the calls, each on a line. -/
def callingProgram (f : PrintingFunction language) (calls : List StringCall) : Text :=
  f.text ++ StringCall.lines f.name calls

variable {seen name z v : Text} {b : Bindings}

/-! ### The ends of statements -/

/-- Whether the text before a place, nearest character first, ends like a statement. -/
def EndsStatement (seen : Text) : Prop :=
  ∃ c ∈ seen.trimStart.head?, c = ')' ∨ c = ';' ∨ c = '}'

theorem endsStatement_append {e : Text} (he : ∀ c ∈ e, c = ';' ∨ c = '}' ∨ isWhiteSpace c) :
    EndsStatement (e.reverse ++ ')' :: z) := by
  have hsigns : ∀ c ∈ e.reverse, (c = ')' ∨ c = ';' ∨ c = '}') ∨ isWhiteSpace c := by
    intro c hc
    rcases he c (List.mem_reverse.1 hc) with h | h | h
    · exact Or.inl (Or.inr (Or.inl h))
    · exact Or.inl (Or.inr (Or.inr h))
    · exact Or.inr h
  obtain ⟨c, hc, hsign⟩ := @Text.exists_head?_trimStart (fun c => c = ')' ∨ c = ';' ∨ c = '}') _ z ')'
    hsigns (Or.inl rfl) (by decide)
  exact ⟨c, hc, hsign⟩

theorem trimStart_break : Text.trimStart ('\n' :: seen) = seen.trimStart := by
  simp [Text.trimStart, isWhiteSpace]

/-- The name of a function at the start of a line is the last word, behind the end of a statement. -/
theorem lastWord_call (hname : name.isAsciiName) (hs : EndsStatement seen) :
    lastWord (name.reverse ++ '\n' :: seen) = name.reverse ∧
      ∃ c ∈ (beforeLastWord (name.reverse ++ '\n' :: seen)).head?, c = ')' ∨ c = ';' ∨ c = '}' := by
  have hbreak : ∀ c ∈ ('\n' :: seen).head?, isWord c = false := Text.head_of_cons (by decide)
  obtain ⟨h1, h2⟩ := @Text.lastWord_append [] name _ rfl (Text.ne_nil_of_isAsciiName hname)
    (Text.isWord_of_isAsciiName hname) hbreak
  rw [List.reverse_nil, List.nil_append] at h1 h2
  rw [trimStart_break] at h2
  exact ⟨h1, by rw [h2]; exact hs⟩

/-- A call on a line of its own is no header. -/
theorem not_endsHeader_call (hname : name.isAsciiName) (hs : EndsStatement seen) :
    ¬ language.EndsHeader (name.reverse ++ '\n' :: seen) := by
  rintro ⟨d, hd, hsign⟩
  obtain ⟨c, hc, h⟩ := (lastWord_call hname hs).2
  obtain rfl : c = d := Option.mem_unique hc hd
  rcases h with rfl | rfl | rfl <;> cases language <;> exact absurd hsign (by decide)

/-- A name that no dot stands before names no printing call, if it is not that of one. -/
theorem not_namesPrint_of_lastWord (hword : lastWord seen = name.reverse)
    (hdot : (beforeLastWord seen).head? ≠ some '.')
    (hapart : language.printObject = [] → ∀ s ∈ language.printNames, name ≠ s.toList) :
    ¬ language.NamesPrint seen := by
  rintro ⟨⟨s, hs, hprint⟩, hobject | hbefore⟩
  · rw [hword, List.reverse_inj] at hprint
    exact hapart hobject s hs hprint
  · exact hdot hbefore

/-- So a call on a line of its own is no printing call. -/
theorem not_namesPrint_call (hname : name.isAsciiName) (hs : EndsStatement seen)
    (hapart : language.printObject = [] → ∀ s ∈ language.printNames, name ≠ s.toList) :
    ¬ language.NamesPrint (name.reverse ++ '\n' :: seen) := by
  obtain ⟨hword, c, hc, h⟩ := lastWord_call hname hs
  refine not_namesPrint_of_lastWord hword (fun hdot => ?_) hapart
  obtain rfl : c = '.' := Option.mem_unique hc hdot
  exact absurd h (by decide)

theorem StringCall.forall_mem_ending (c : StringCall) :
    ∀ d ∈ c.ending, d = ';' ∨ d = '}' ∨ isWhiteSpace d := fun d hd =>
  (c.ending_plain d hd).imp_right Or.inr

theorem endsStatement_line (c : StringCall) :
    EndsStatement (('\n' :: (name ++ '(' :: c.tail)).reverse ++ seen) := by
  have h := @endsStatement_append ('"' :: (c.value.reverse ++ '"' :: '(' :: (name.reverse ++ '\n' :: seen)))
    c.ending c.forall_mem_ending
  simpa [StringCall.tail] using h

theorem endsStatement_lines (hs : EndsStatement seen) (calls : List StringCall) :
    EndsStatement ((StringCall.lines name calls).reverse ++ seen) := by
  induction calls generalizing seen with
  | nil => exact hs
  | cons c calls ih =>
    have h : EndsStatement ((StringCall.lines name calls).reverse ++
        (('\n' :: (name ++ '(' :: c.tail)).reverse ++ seen)) := ih (endsStatement_line c)
    rwa [← List.append_assoc, ← List.reverse_append] at h

theorem StringCall.paren_notMem_tail (c : StringCall) : '(' ∉ c.tail := by
  have hending : '(' ∉ c.ending :=
    Text.notMem_of_ending c.forall_mem_ending (by decide) (by decide) (by decide)
  simp [tail, c.paren_notMem, hending]

/-- **Where the name of a function stands in some way behind no statement, the lines of calls have no
parenthesis that stands so.** -/
theorem noneOpens_lines {way : Text → Prop} (hname : name.isAsciiName)
    (hway : ∀ seen, EndsStatement seen → ¬ way (name.reverse ++ '\n' :: seen)) (hs : EndsStatement seen)
    (calls : List StringCall) : NoneOpens way seen (StringCall.lines name calls) := by
  -- every line leaves the end of a statement behind for the next one
  induction calls generalizing seen with
  | nil => exact noneOpens_of_notMem List.not_mem_nil
  | cons c calls ih =>
    have hparen : '(' ∉ '\n' :: name := by
      simpa using Text.notMem_of_isName (Text.isName_of_isAsciiName hname) (c := '(') (by decide)
    have hopen : NoneOpens way (('\n' :: name).reverse ++ seen) ['('] :=
      noneOpens_paren (by simpa using hway seen hs)
    have hline : NoneOpens way seen ('\n' :: name ++ (['('] ++ c.tail)) :=
      (noneOpens_of_notMem hparen).append (hopen.append (noneOpens_of_notMem c.paren_notMem_tail))
    have h := hline.append (by simpa using ih (endsStatement_line c))
    simpa [StringCall.lines] using h

/-! ### What a call gives -/

theorem applyArguments_quoted {s : Signature} {p : Parameter} {ps : List Parameter}
    (hs : s.parameters = p :: ps) (hq : '"' ∉ v) (hb : '\\' ∉ v) :
    Call.applyArguments language s b ('"' :: (v ++ ['"'])) = b.insert p.name v := by
  let l : Call.Literal := .quoted '"' v (Or.inl rfl)
    (StringLiteral.isBody_of_notMem hq (StringLiteral.endsOpen_of_notMem hb))
  have hstep : ∀ (b : Bindings) (k : Nat), ∀ x ∈ [l][k]?,
      Call.applyArgument language s b x.text k = b.insert p.name x.value
    | b, 0, _, rfl => Call.applyArgument_of_position l.labelled?_text (by simp [hs]) l.value?_text
  have hlist : Call.argumentList ([l].map Call.Literal.text) = l.text := by simp [Call.argumentList]
  have hrun := Call.applyArguments_argumentList (b := b)
    (fun x _ => ⟨x.isTrimmed_text, x.passes_text⟩) hstep
  rwa [hlist] at hrun

/-- A call site behind a definition calls the function that it defines, if it has the name and no dot
stands before it. -/
theorem Definition.calls_signature (d : Definition language) {t r : Text} (ht : t = d.text ++ r)
    (hr : NoneOpens language.EndsHeader d.text.reverse r) {s : Call.Site t}
    (hname : s.name = d.name) (hgap : s.gap = []) (hbefore : d.text.length ≤ s.before.length)
    (hdot : s.before.trimEnd.getLast? ≠ some '.') : s.Calls (signatures language t) d.signature := by
  subst ht
  obtain ⟨others, hsignatures, hothers⟩ := d.exists_signatures_eq_cons hr
  have htext := s.text_eq
  rw [hgap, List.nil_append] at htext
  rw [hsignatures]
  refine ⟨fun g hg => ?_, hdot, by simp [signature, hname]⟩
  rcases List.mem_cons.1 hg with rfl | hg
  · rintro ⟨hposition, -⟩
    simp only [signature, text, head, List.length_append, List.length_cons, List.length_nil]
      at hposition hbefore
    omega
  · have h := hothers g hg
    rw [htext] at h
    exact h.not_called

/-! ### The function and its calls -/

namespace PrintingFunction

variable (f : PrintingFunction language) (calls : List StringCall)

theorem endsStatement_text : EndsStatement f.text.reverse := by
  have h := @endsStatement_append (f.reference.argument.reverse ++ '(' :: (f.reference.callee.toList.reverse ++
    (f.indent.reverse ++ f.toDefinition.text.reverse))) f.ending f.ending_plain
  simpa [text, Reference.text] using h

/-- In front of the printing call stands the sign of the body. -/
theorem exists_reverse_eq : ∃ z, f.indent.reverse ++ f.toDefinition.text.reverse =
    f.indent.reverse ++ language.bodySign :: z := by
  refine ⟨(f.modifiers ++ (f.head ++ '(' :: (f.parameters ++ ')' :: f.gap))).reverse, ?_⟩
  simp [Definition.text]

theorem isWord_bodySign (language : Language) :
    isWord language.bodySign = false ∧ isWhiteSpace language.bodySign = false := by
  cases language <;> decide

theorem head_indent : (f.indent.reverse ++ f.toDefinition.text.reverse).head?.any isWord = false := by
  obtain ⟨z, hz⟩ := f.exists_reverse_eq
  rw [hz]
  have hhead : ∀ c ∈ (f.indent.reverse ++ language.bodySign :: z).head?, isWord c = false :=
    Text.head_of_blank_append (Text.isBlank_reverse f.indent_blank) (fun _ => isWord_eq_false_of_isWhiteSpace)
      (Text.head_of_cons (isWord_bodySign language).1)
  cases h : (f.indent.reverse ++ language.bodySign :: z).head? with
  | none => rfl
  | some c => exact hhead c h

theorem not_endsHeader_callee : ¬ language.EndsHeader
    (f.reference.callee.toList.reverse ++ (f.indent.reverse ++ f.toDefinition.text.reverse)) := by
  rintro ⟨c, hc, hsign⟩
  rw [head?_beforeLastWord_callee f.reference.callee_mem f.head_indent] at hc
  obtain ⟨z, hz⟩ := f.exists_reverse_eq
  have htrim : Text.trimStart (f.indent.reverse ++ f.toDefinition.text.reverse) = language.bodySign :: z := by
    rw [hz]
    exact Text.trimStart_append (Text.isBlank_reverse f.indent_blank)
      (Text.head_of_cons (isWord_bodySign language).2)
  rw [htrim] at hc
  obtain rfl : (if language.printObject = [] then language.bodySign else '.') = c := by
    split at hc <;> rename_i h <;> simpa [h] using hc
  cases language <;> exact absurd hsign (by decide)

/-- Behind the header no parenthesis stands like one of a header. -/
theorem noneOpens_endsHeader : NoneOpens language.EndsHeader f.toDefinition.text.reverse
    (f.indent ++ (f.reference.text ++ (f.ending ++ StringCall.lines f.name calls))) := by
  have hindent : '(' ∉ f.indent := Text.notMem_of_isBlank f.indent_blank (by decide)
  have hending : '(' ∉ f.ending := Text.notMem_of_ending f.ending_plain (by decide) (by decide) (by decide)
  have hname := Text.isName_of_isAsciiName f.parameter_ascii
  have hprint : NoneOpens language.EndsHeader (f.indent.reverse ++ f.toDefinition.text.reverse)
      f.reference.text :=
    f.reference.noneOpens_text not_endsHeader_backslash hname f.not_endsHeader_callee
  have hlines : NoneOpens language.EndsHeader f.text.reverse (StringCall.lines f.name calls) :=
    noneOpens_lines f.name_ascii (fun _ hs => not_endsHeader_call f.name_ascii hs) f.endsStatement_text calls
  refine (noneOpens_of_notMem hindent).append (hprint.append ((noneOpens_of_notMem hending).append ?_))
  simpa [text] using hlines

/-- In front of the printing call no parenthesis stands like that of one. -/
theorem noneOpens_namesPrint :
    NoneOpens language.NamesPrint [] (f.toDefinition.text ++ f.indent) := by
  have hindent : '(' ∉ f.indent := Text.notMem_of_isBlank f.indent_blank (by decide)
  have hheader : ¬ language.NamesPrint (f.head.reverse ++ f.modifiers.reverse) := by
    obtain ⟨hword, hbefore⟩ := @Definition.lastWord_head _ f.modifiers.reverse f.toDefinition
    refine not_namesPrint_of_lastWord hword (fun hdot => ?_) f.name_apart
    obtain ⟨hne, hletters⟩ := isLetters_definingWord language
    -- in front of the function's name stands its keyword, and no dot
    have hhead : ∀ c ∈ (language.definingWord.toList.reverse ++ f.modifiers.reverse).head?,
        (c == '.') = false := by
      refine Text.head_of_append (by simpa using hne) fun c hc => beq_eq_false_iff_ne.2 ?_
      rintro rfl
      exact absurd (hletters '.' (List.mem_reverse.1 hc)) (by decide)
    rw [hbefore] at hdot
    exact absurd (hhead '.' hdot) (by decide)
  have hopening : NoneOpens language.NamesPrint [] (f.modifiers ++ f.head) :=
    noneOpens_of_notMem (f.notMem_opening (by decide) (by decide))
  have hparen : NoneOpens language.NamesPrint ((f.modifiers ++ f.head).reverse ++ []) ['('] :=
    noneOpens_paren (by simpa using hheader)
  have hrest : NoneOpens language.NamesPrint ('(' :: (f.modifiers ++ f.head).reverse)
      (f.parameters ++ ')' :: (f.gap ++ language.bodySign :: f.indent)) :=
    f.noneOpens_text (noneOpens_of_notMem hindent)
  have h := hopening.append (hparen.append (by simpa using hrest))
  simpa [Definition.text] using h

/-! ### Comments -/

theorem isPlain_definition : ∀ c ∈ f.toDefinition.text, Comment.isPlain c := by
  have hopening : ∀ c ∈ f.modifiers ++ f.head, Comment.isPlain c := fun c hc =>
    (f.forall_mem_opening c hc).elim Comment.isPlain_of_isWord Comment.isPlain_of_isWhiteSpace
  have hparameters : ∀ c ∈ f.parameters, Comment.isPlain c := by
    intro c hc
    by_contra h
    refine notMem_parameterText f.type_letters f.parameter_ascii ?_ ?_ ?_ hc
    · exact Bool.eq_false_iff.2 fun hword => h (Comment.isPlain_of_isWord hword)
    · rintro rfl
      exact h (by decide)
    · rintro rfl
      exact h (by decide)
  have hgap : ∀ c ∈ f.gap, Comment.isPlain c := fun c hc =>
    Comment.isPlain_of_isWhiteSpace (List.all_eq_true.1 f.gap_blank c hc)
  have hsign : Comment.isPlain language.bodySign := by cases language <;> decide
  simp only [Definition.text, List.forall_mem_append, List.forall_mem_cons] at hopening ⊢
  exact ⟨hopening.1, hopening.2, rfl, hparameters, rfl, hgap, hsign, by simp⟩

theorem isKept_lines {style : CommentStyle} (hname : name.isAsciiName) (calls : List StringCall) :
    Comment.IsKept style (StringCall.lines name calls) := by
  induction calls with
  | nil => exact Comment.isKept_of_isPlain (by simp [StringCall.lines])
  | cons c calls ih =>
    have hbreak : Comment.IsKept style ['\n'] := Comment.isKept_of_isPlain (by decide)
    have hparen : Comment.IsKept style ['('] := Comment.isKept_of_isPlain (by decide)
    have hclosing : Comment.IsKept style [')'] := Comment.isKept_of_isPlain (by decide)
    have hcallee : Comment.IsKept style name := Comment.isKept_of_isPlain fun d hd =>
      Comment.isPlain_of_isWord (Text.isWord_of_isAsciiName hname d hd)
    have hvalue : Comment.IsKept style ('"' :: (c.value ++ ['"'])) :=
      Comment.isKept_quoted rfl c.quote_notMem c.break_notMem
        (StringLiteral.endsOpen_of_notMem c.backslash_notMem)
    have hending : Comment.IsKept style c.ending := Comment.isKept_ending c.forall_mem_ending
    have h := (hbreak.append (hcallee.append hparen)).append
      (hvalue.append (hclosing.append (hending.append ih)))
    simpa [StringCall.lines, StringCall.tail] using h

theorem isKept_callingProgram {style : CommentStyle} : Comment.IsKept style (callingProgram f calls) := by
  have hindent : Comment.IsKept style f.indent := Comment.isKept_of_isBlank f.indent_blank
  have hending : Comment.IsKept style f.ending := Comment.isKept_ending f.ending_plain
  have hprint : Comment.IsKept style f.reference.text := f.reference.isKept_text f.parameter_ascii
  exact ((Comment.isKept_of_isPlain f.isPlain_definition).append
    (hindent.append (hprint.append hending))).append (isKept_lines f.name_ascii calls)

end PrintingFunction

/-- The last call decides what the parameter stands for. -/
theorem get?_boundIn_callingProgram (f : PrintingFunction language) (calls : List StringCall)
    (last : StringCall) :
    (boundIn language (callingProgram f (calls ++ [last]))).get? f.parameter = some last.value := by
  have htext : callingProgram f (calls ++ [last]) = f.toDefinition.text ++ (f.indent ++ (f.reference.text ++
      (f.ending ++ StringCall.lines f.name (calls ++ [last])))) := by
    simp [callingProgram, PrintingFunction.text]
  have hbefore : EndsStatement ((StringCall.lines f.name calls).reverse ++ f.text.reverse) :=
    endsStatement_lines f.endsStatement_text calls
  let site : Call.Site (callingProgram f (calls ++ [last])) :=
    ⟨f.text ++ (StringCall.lines f.name calls ++ ['\n']), f.name, [], last.tail,
      by simp [callingProgram, StringCall.lines],
      by rw [← List.append_assoc, List.getLast?_concat]; rfl,
      Call.isAsciiWord_of_isAsciiName f.name_ascii, rfl⟩
  have hdot : site.before.trimEnd.getLast? ≠ some '.' := by
    obtain ⟨c, hc, hsign⟩ := hbefore
    have hreverse : site.before.reverse =
        '\n' :: ((StringCall.lines f.name calls).reverse ++ f.text.reverse) := by simp [site]
    rw [Text.trimEnd, List.getLast?_reverse, hreverse, trimStart_break, Option.mem_def.1 hc]
    rintro ⟨⟩
    exact absurd hsign (by decide)
  have hlength : f.toDefinition.text.length ≤ site.before.length := by
    simp [site, PrintingFunction.text]
  have hcalls : site.Calls (signatures language (callingProgram f (calls ++ [last]))) f.signature :=
    f.calls_signature htext (f.noneOpens_endsHeader _) rfl rfl hlength hdot
  have harguments : Nesting.arguments? site.rest = some ('"' :: (last.value ++ ['"']), last.ending) :=
    @Nesting.arguments?_quoted _ _ _ [] (by simp) rfl (StringLiteral.isBody_of_notMem
      last.quote_notMem (StringLiteral.endsOpen_of_notMem last.backslash_notMem))
  -- whatever the declarations and the earlier calls gave is replaced
  obtain ⟨b, hb⟩ := Call.exists_afterCalls_eq (b := declared language _) hcalls
    last.paren_notMem_tail harguments
  rw [boundIn, hb, applyArguments_quoted rfl last.quote_notMem last.backslash_notMem,
    Bindings.get?_insert_self]

/-- **A parameter prints the argument of the last call.** -/
theorem predict_callingProgram (f : PrintingFunction language) {calls : List StringCall} {last : StringCall}
    (hlast : calls.getLast? = some last) : predict language (callingProgram f calls) = .ok last.value := by
  obtain ⟨init, rfl⟩ := List.getLast?_eq_some_iff.1 hlast
  have htext : callingProgram f (init ++ [last]) = (f.toDefinition.text ++ f.indent) ++
      (f.reference.text ++ (f.ending ++ StringCall.lines f.name (init ++ [last]))) := by
    simp [callingProgram, PrintingFunction.text]
  have hget := get?_boundIn_callingProgram f init last
  have hkept : withoutComments language (callingProgram f (init ++ [last])) = _ :=
    (f.isKept_callingProgram (init ++ [last])).withoutComments_eq
  have hapart : (f.toDefinition.text ++ f.indent).getLast?.any isWord = false := by
    rw [List.getLast?_eq_head?_reverse, List.reverse_append]
    exact f.head_indent
  have hending : '(' ∉ f.ending := Text.notMem_of_ending f.ending_plain (by decide) (by decide) (by decide)
  have hlines : NoneOpens language.NamesPrint f.text.reverse (StringCall.lines f.name (init ++ [last])) :=
    noneOpens_lines f.name_ascii (fun _ hs => not_namesPrint_call f.name_ascii hs f.name_apart)
      f.endsStatement_text _
  rw [htext] at hget hkept ⊢
  refine predict_reference f.reference f.parameter_ascii hkept hapart f.noneOpens_namesPrint
    ((noneOpens_of_notMem hending).append ?_) hget last.backslash_notMem
  simpa [PrintingFunction.text] using hlines

/-- Strings that spell a declaration of the parameter, a function and a comment. -/
theorem predict_callingProgram_javaScript :
    let f : PrintingFunction .javaScript :=
      { modifiers := [], name := "greet".toList, parameter := "who".toList, type := "any".toList,
        gap := [' '], indent := "\n  ".toList,
        reference := ⟨"console.log", "who".toList, by decide, by decide⟩, ending := ";\n\x7d".toList,
        modifiers_plain := by simp, modifiers_apart := by decide, name_ascii := by decide,
        name_free := by decide, parameter_ascii := by decide, parameter_free := by decide,
        type_letters := by decide, gap_blank := by decide, name_apart := by decide,
        indent_blank := by decide, ending_plain := by decide }
    let first : StringCall :=
      ⟨"let who = 'me'".toList, [';'], by decide, by decide, by decide, by decide, by decide⟩
    let last : StringCall :=
      ⟨"const greet = who => who // it".toList, [';'], by decide, by decide, by decide, by decide,
        by decide⟩
    [first, last].getLast? = some last ∧
      predict .javaScript (callingProgram f [first, last]) = .ok last.value := by
  intro f first last
  have hlast : [first, last].getLast? = some last := rfl
  exact ⟨hlast, predict_callingProgram f hlast⟩

end DryRun
