import DryRun.Proofs.CallSites
import DryRun.Proofs.Declaration.Lines
import DryRun.Proofs.Headers
import DryRun.Proofs.Output.References

/-!
# Printing a declared string

A snippet that declares a name with a string on one line and prints what the name stands for on the
next prints the string (`predict_declaredReference`), whatever comments, markers, quotes and declarations
it spells.  The scan for declarations reads the line as a whole, and the only parenthesis outside the
template, that of the printing call, stands like none of a header.
-/

namespace DryRun

open Pattern Cursor Unicode
open Text (beforeLastWord lastWord lastWord_append lastWord_append_cons)

variable {language : Language} {v u ending : Text}

namespace DeclaredLine

variable (l : DeclaredLine language)

theorem isKept_text {style : CommentStyle} (hv : l.value = .string v) (hb : '\\' ∉ v) :
    Comment.IsKept style l.text := by
  have hwritable := l.value_writable
  rw [hv] at hwritable
  have hopening : Comment.IsKept style l.opening := by
    refine Comment.isKept_of_isPlain fun c hc => ?_
    rcases l.forall_mem_opening c hc with h | h | rfl | rfl
    · exact Comment.isPlain_of_class (p := isTypeSign) (by decide) h
    · exact Comment.isPlain_of_isWhiteSpace h
    · rfl
    · rfl
  have hvalue : Comment.IsKept style ('"' :: (v ++ ['"'])) :=
    Comment.isKept_quoted rfl hwritable.1 hwritable.2 (StringLiteral.endsOpen_of_notMem hb)
  have hending : Comment.IsKept style l.ending :=
    Comment.isKept_ending fun c hc => (l.ending_plain c hc).imp_right Or.inr
  have htext : l.text = l.opening ++ ('"' :: (v ++ ['"']) ++ l.ending) := by
    rw [DeclaredLine.text, hv]
    rfl
  rw [htext]
  exact hopening.append (hvalue.append hending)

theorem paren_notMem_text (hv : l.value = .string v) (hp : '(' ∉ v) : '(' ∉ l.text := by
  intro h
  rw [DeclaredLine.text, hv] at h
  simp only [DeclaredValue.written, List.mem_append, List.mem_cons, List.not_mem_nil, or_false] at h
  rcases h with h | ((h | h | h) | h)
  · rcases l.forall_mem_opening _ h with h | h | h | h <;> exact absurd h (by decide)
  · exact absurd h (by decide)
  · exact hp h
  · exact absurd h (by decide)
  · rcases l.ending_plain _ h with h | h <;> exact absurd h (by decide)

/-- Read from its end, the line shows a semicolon or the closing quote first. -/
theorem exists_head?_trimStart_text (hv : l.value = .string v) :
    ∃ c, (Text.trimStart ('\n' :: l.text.reverse)).head? = some c ∧ (c = ';' ∨ c = '"') := by
  have hreverse : '\n' :: l.text.reverse =
      ('\n' :: l.ending.reverse) ++ '"' :: (v.reverse ++ '"' :: l.opening.reverse) := by
    simp [DeclaredLine.text, hv, DeclaredValue.written]
  rw [hreverse]
  refine Text.exists_head?_trimStart (p := fun c => c = ';' ∨ c = '"') ?_ (Or.inr rfl) (by decide)
  intro c hc
  rcases List.mem_cons.1 hc with rfl | hc
  · exact Or.inr rfl
  · exact (l.ending_plain c (List.mem_reverse.1 hc)).imp_left Or.inl

/-- What the line declares counts, if no `=` follows it. -/
theorem get?_declared_append (hv : l.value = .string v) {r : Text} (hr : '=' ∉ r) :
    (declared language (l.text ++ '\n' :: r)).get? l.name = some v := by
  obtain ⟨g, hmatch, hread⟩ := @exists_prefers _ [] ('\n' :: r) l rfl (by simp [Follows])
  have hequals : '=' ∉ l.ending ++ '\n' :: r := by
    intro h
    simp only [List.mem_append, List.mem_cons] at h
    rcases h with h | h | h
    · rcases l.ending_plain _ h with h | h <;> exact absurd h (by decide)
    · exact absurd h (by decide)
    · exact hr h
  -- no other string is declared behind this one
  have hquiet : ∀ seen, (language.declaration .string).findFrom seen (l.ending ++ '\n' :: r) = [] := by
    intro seen
    have hquiet : Quiet (language.Announces .string) seen (l.ending ++ '\n' :: r) [] :=
      quiet_of_notMem hequals (by simp)
    have h := (begins_declaration language .string).findFrom_append hquiet
    rw [List.append_nil] at h
    rw [h]
    rfl
  have hkind : l.value.kind = .string := by rw [hv]; rfl
  rw [hkind] at hmatch
  have hfound := findFrom_of_some (by simp [opening]) hmatch.matchAt?
  have hstrings : Declaration.strings language (l.text ++ '\n' :: r) = [(l.name, v)] := by
    have htext : l.text ++ '\n' :: r =
        l.opening ++ l.value.written language ++ (l.ending ++ '\n' :: r) := by
      simp [DeclaredLine.text]
    have hfind : language.declarations.strings.findAll (l.text ++ '\n' :: r) =
        [matchOf [] (l.opening ++ l.value.written language) (l.ending ++ '\n' :: r) g] := by
      rw [htext]
      exact hfound.trans (by rw [hquiet])
    rw [Declaration.strings, hfind, List.filterMap_cons_some hread, hv]
    rfl
  rw [get?_declared, hstrings]
  simp

end DeclaredLine

/-! ### The printing line calls no function -/

/-- Whether the text before a place, nearest character first, ends in a word that no dot stands
before. -/
def Call.EndsName (seen : Text) : Prop :=
  lastWord seen ≠ [] ∧ (beforeLastWord seen).head? ≠ some '.'

/-- Where no parenthesis stands behind such a word, nothing is called. -/
theorem Call.afterCalls_of_noneOpens {b : Bindings} {t : Text} (ht : NoneOpens Call.EndsName [] t) :
    b.afterCalls language t = b := by
  refine afterCalls_eq_self fun s f h => ?_
  have hhead : ∀ c ∈ s.before.reverse.head?, isWord c = false := by
    intro c hc
    have := s.before_apart
    rw [List.head?_reverse] at hc
    rw [Option.mem_def.1 hc] at this
    exact this
  have hne : s.name ≠ [] := by
    obtain ⟨c, w, hname, -⟩ := s.isAsciiWord
    simp [hname]
  obtain ⟨h1, h2⟩ := lastWord_append s.gap_blank hne s.isAsciiWord.isWord hhead
  refine ht (s.before ++ (s.name ++ s.gap)) s.rest (s.text_eq.trans (by simp)) ?_
  have hreverse : (s.before ++ (s.name ++ s.gap)).reverse ++ [] =
      s.gap.reverse ++ (s.name.reverse ++ s.before.reverse) := by simp
  rw [hreverse, EndsName, h1, h2]
  refine ⟨by simpa using hne, ?_⟩
  have hdot := h.no_dot
  rwa [Text.trimEnd, List.getLast?_reverse] at hdot

variable (l : DeclaredLine language) (r : Reference language l.name)

/-- Nothing is called on the lines of a declaration and a printing call: in front of the parenthesis of
the printing call stands a dot, or what shows that it belongs to no header. -/
theorem afterCalls_declaredReference {b : Bindings} (hv : l.value = .string v) (hp : '(' ∉ v)
    (hending : '(' ∉ ending) :
    b.afterCalls language (l.text ++ '\n' :: (r.text ++ ending)) = b := by
  have hname := Text.isName_of_isAsciiName l.name_ascii
  have hnone : ∀ {way : Text → Prop}, (∀ z, ¬ way ('\\' :: z)) →
      ¬ way (r.callee.toList.reverse ++ '\n' :: l.text.reverse) →
        NoneOpens way [] (l.text ++ '\n' :: (r.text ++ ending)) := by
    intro way hway hcall
    have hline : NoneOpens way [] (l.text ++ ['\n']) :=
      noneOpens_of_notMem (by simpa using l.paren_notMem_text hv hp)
    have hprint : NoneOpens way ((l.text ++ ['\n']).reverse ++ []) (r.text ++ ending) := by
      refine (r.noneOpens_text hway hname ?_).append (noneOpens_of_notMem hending)
      simpa using hcall
    have h := hline.append hprint
    simpa using h
  have hcallee : (beforeLastWord (r.callee.toList.reverse ++ '\n' :: l.text.reverse)).head? = _ :=
    head?_beforeLastWord_callee r.callee_mem rfl
  by_cases hobject : language.printObject = []
  · -- no object: the declaration's last sign stands in front, and no header ends with it
    obtain ⟨c, hc, hsign⟩ := l.exists_head?_trimStart_text hv
    rw [if_pos hobject, hc] at hcallee
    have hheader : ¬ language.EndsHeader (r.callee.toList.reverse ++ '\n' :: l.text.reverse) := by
      rintro ⟨d, hd, h⟩
      rw [hcallee] at hd
      obtain rfl : c = d := by simpa using hd
      rcases hsign with rfl | rfl <;> cases language <;> exact absurd h (by decide)
    have hl : language ≠ .javaScript := by
      rintro rfl
      cases hobject
    refine Call.afterCalls_eq_self fun s f h => ?_
    have hfirst := h.first
    rw [signatures_eq_nil hl (hnone not_endsHeader_backslash hheader)] at hfirst
    cases hfirst
  · rw [if_neg hobject] at hcallee
    -- the dot of the object stands in front of the name
    refine Call.afterCalls_of_noneOpens (hnone (fun z h => h.1 ?_) fun h => h.2 hcallee)
    exact (@lastWord_append_cons [] z '\\' rfl (by decide) (by decide)).1

/-! ### The program -/

/-- **A declared string is what a reference to it prints**, if no backslash and no opening parenthesis
stands in it. -/
theorem predict_declaredReference (hv : l.value = .string v) (hb : '\\' ∉ v) (hp : '(' ∉ v)
    (hending : ∀ c ∈ ending, c = ';' ∨ isWhiteSpace c) :
    predict language (l.text ++ '\n' :: (r.text ++ ending)) = .ok v := by
  have hname := Text.isName_of_isAsciiName l.name_ascii
  have hends : ∀ c ∈ ending, c = ';' ∨ c = '}' ∨ isWhiteSpace c := fun c hc =>
    (hending c hc).imp_right Or.inr
  have hnotOpen : '(' ∉ ending := Text.notMem_of_ending hends (by decide) (by decide) (by decide)
  have hnotEquals : '=' ∉ ending := Text.notMem_of_ending hends (by decide) (by decide) (by decide)
  have hparen : '(' ∉ l.text ++ ['\n'] := by simpa using l.paren_notMem_text hv hp
  have htext : l.text ++ '\n' :: (r.text ++ ending) = (l.text ++ ['\n']) ++ (r.text ++ ending) := by simp
  have hkept : Comment.IsKept language.commentStyle (l.text ++ ['\n'] ++ (r.text ++ ending)) := by
    have hbreak : Comment.IsKept language.commentStyle ['\n'] :=
      Comment.isKept_of_isPlain (by decide)
    exact ((l.isKept_text hv hb).append hbreak).append
      ((r.isKept_text l.name_ascii).append (Comment.isKept_ending hends))
  have hget : (boundIn language (l.text ++ '\n' :: (r.text ++ ending))).get? l.name = some v := by
    rw [boundIn, afterCalls_declaredReference l r hv hp hnotOpen]
    refine l.get?_declared_append hv fun h => ?_
    rcases List.mem_append.1 h with h | h
    · exact r.equals_notMem_text hname h
    · exact hnotEquals h
  rw [htext] at hget ⊢
  refine predict_reference r l.name_ascii hkept.withoutComments_eq ?_ (noneOpens_of_notMem hparen)
    (noneOpens_of_notMem hnotOpen) hget hb
  rw [List.getLast?_concat]
  rfl

/-- A string that spells a comment, a marker and the beginning of a declaration. -/
theorem predict_declaredReference_kotlin :
    let v : Text := "// $x = 'y' val z = ".toList
    let l : DeclaredLine .kotlin :=
      ⟨"val ".toList, "x".toList, [' '], [' '], .string v, [],
        ⟨"val", by decide, [' '], by decide, by decide, rfl⟩, by decide, Or.inl (by decide), by decide,
        by decide, by decide⟩
    let r : Reference .kotlin l.name := ⟨"println", "\"$x\"".toList, by decide, by decide⟩
    l.value = .string v ∧ '\\' ∉ v ∧ '(' ∉ v ∧ (∀ c ∈ ([] : Text), c = ';' ∨ isWhiteSpace c) ∧
      predict .kotlin (l.text ++ '\n' :: (r.text ++ [])) = .ok v := by
  intro v l r
  have hb : '\\' ∉ v := by decide
  have hp : '(' ∉ v := by decide
  have hending : ∀ c ∈ ([] : Text), c = ';' ∨ isWhiteSpace c := by simp
  exact ⟨rfl, hb, hp, hending, predict_declaredReference l r rfl hb hp hending⟩

end DryRun
