import DryRun.Proofs.Headers
import DryRun.Proofs.Nesting

/-!
# Definitions of functions

A `Definition` is a function with one parameter as each language writes it, up to the sign in front of
its body.  The header is matched from its keyword on (`exists_prefers_namedHeader`) and nowhere else, so
a text that begins with a definition has its signature as the first one (`exists_signatures_eq_cons`), if
no other parenthesis of the text stands like one of a header.
-/

namespace DryRun

open Pattern Cursor Unicode
open Text (beforeLastWord head_of_cons lastWord)

/-! ### The parts of a definition -/

/-- The word in front of a function's name: the keyword of functions, or in Java the type of no
result. -/
def Language.definingWord : Language → String
  | .kotlin => "fun"
  | .java => "void"
  | .python => "def"
  | .javaScript => "function"
  | .swift => "func"

/-- A parameter and its type, which Python and JavaScript leave out. -/
def Language.parameterText : Language → (type name : Text) → Text
  | .kotlin, type, name => name ++ ':' :: ' ' :: type
  | .java, type, name => type ++ ' ' :: name
  | .swift, type, name => '_' :: ' ' :: (name ++ ':' :: ' ' :: type)
  | .python, _, name => name
  | .javaScript, _, name => name

/-- The sign in front of a function's body. -/
def Language.bodySign : Language → Char
  | .python => ':'
  | _ => '{'

/-- A function with one parameter, up to its body. -/
structure Definition (language : Language) where
  /-- What stands before the keyword, such as `public static`. -/
  modifiers : Text
  name : Text
  parameter : Text
  /-- The parameter's type, if the language writes one. -/
  type : Text
  /-- The white space before the body's sign. -/
  gap : Text
  modifiers_plain : ∀ c ∈ modifiers, c.isAlpha ∨ isWhiteSpace c
  modifiers_apart : modifiers.getLast?.any isWord = false
  name_ascii : name.isAsciiName
  name_free : name ∉ Signature.keywords
  parameter_ascii : parameter.isAsciiName
  parameter_free : Parameter.isReceiver language parameter = false
  type_letters : IsLetters type
  gap_blank : gap.isBlank

namespace Definition

variable {language : Language} (d : Definition language)

/-- The header from its keyword up to the parenthesis. -/
def head : Text := language.definingWord.toList ++ ' ' :: d.name

/-- What stands between the parentheses. -/
def parameters : Text := language.parameterText d.type d.parameter

def text : Text :=
  d.modifiers ++ (d.head ++ '(' :: (d.parameters ++ ')' :: (d.gap ++ [language.bodySign])))

/-- The signature that the definition stands for. -/
def signature : Signature where
  name := d.name
  parameters := [⟨if language = .swift then none else some d.parameter, d.parameter⟩]
  position := (d.modifiers ++ (language.definingWord.toList ++ [' '])).length

end Definition

variable {language : Language} {seen type x t gap name rest : Text} {g : List (Nat × Span)}

/-! ### Reading the parameter -/

theorem stripStars_of_isName (h : t.isName) : Parameter.stripStars t = t := by
  have hdrop : ∀ {p : Char → Bool} {t : Text}, (∀ c ∈ t, p c = false) → t.dropWhile p = t :=
    fun ht => Text.dropWhile_eq_self fun c hc => ht c (List.mem_of_mem_head? hc)
  have hstar : '*' ∉ t := Text.notMem_of_isName h (by decide)
  have hdot : '.' ∉ t := Text.notMem_of_isName h (by decide)
  have hne : ∀ {mark : Char}, mark ∉ t → ∀ c ∈ t, (c == mark) = false := by
    intro mark hmark c hc
    rw [beq_eq_false_iff_ne]
    rintro rfl
    exact hmark hc
  have h1 : t.dropWhile (fun c => c == '*' || c == '.') = t :=
    hdrop fun c hc => by rw [hne hstar c hc, hne hdot c hc]; rfl
  have h2 : t.reverse.dropWhile (· == '.') = t.reverse :=
    hdrop fun c hc => hne hdot c (List.mem_reverse.1 hc)
  rw [Parameter.stripStars, h1, h2, List.reverse_reverse]

/-- In a parameter's text a word may stand before the name, and a type behind a colon. -/
theorem exists_parameterText (language : Language) (ht : IsLetters type) : ∃ lead tail : Text,
    (∀ x, language.parameterText type x = lead ++ (x ++ tail)) ∧
      (lead = [] ∧ language ≠ .swift ∨ ∃ w, lead = w ++ [' '] ∧ w ≠ [] ∧ (∀ c ∈ w, isWord c) ∧
        (language = .swift → w = ['_'])) ∧
      (tail = [] ∨ tail = ':' :: ' ' :: type) := by
  have htype : ∀ c ∈ type, isWord c := fun c hc => isWord_of_isAlpha (ht.2 c hc)
  cases language with
  | kotlin => exact ⟨[], _, fun x => rfl, Or.inl ⟨rfl, by simp⟩, Or.inr rfl⟩
  | java =>
    exact ⟨type ++ [' '], [], fun x => by simp [Language.parameterText],
      Or.inr ⟨type, rfl, ht.1, htype, by simp⟩, Or.inl rfl⟩
  | python =>
    exact ⟨[], [], fun x => by simp [Language.parameterText], Or.inl ⟨rfl, by simp⟩, Or.inl rfl⟩
  | javaScript =>
    exact ⟨[], [], fun x => by simp [Language.parameterText], Or.inl ⟨rfl, by simp⟩, Or.inl rfl⟩
  | swift =>
    exact ⟨['_', ' '], _, fun x => rfl,
      Or.inr ⟨['_'], rfl, by simp, by decide, fun _ => rfl⟩, Or.inr rfl⟩

theorem notMem_parameterText (ht : IsLetters type) (hx : x.isAsciiName) {c : Char}
    (hword : isWord c = false) (hcolon : c ≠ ':') (hspace : c ≠ ' ') :
    c ∉ language.parameterText type x := by
  have hnot : ∀ {w : Text}, (∀ d ∈ w, isWord d) → c ∉ w := by
    intro w hw hc
    rw [hw c hc] at hword
    cases hword
  have hname := hnot (Text.isWord_of_isAsciiName hx)
  have htype : c ∉ type := hnot fun d hd => isWord_of_isAlpha (ht.2 d hd)
  obtain ⟨lead, tail, htext, hlead, htail⟩ := exists_parameterText language ht
  have hlead : c ∉ lead := by
    rcases hlead with ⟨rfl, -⟩ | ⟨w, rfl, -, hw, -⟩
    · simp
    · simp [hnot hw, hspace]
  have htail : c ∉ tail := by
    rcases htail with rfl | rfl <;> simp [hcolon, hspace, htype]
  simp [htext, hlead, hname, htail]

theorem ofText?_parameterText (ht : IsLetters type) (hx : x.isAsciiName)
    (hfree : Parameter.isReceiver language x = false) :
    Parameter.ofText? language (language.parameterText type x) =
      some ⟨if language = .swift then none else some x, x⟩ := by
  have hname := Text.isName_of_isAsciiName hx
  have hsingle : x.words = [x] :=
    Text.words_eq_singleton (Text.ne_nil_of_isAsciiName hx) (Text.isWhiteSpace_of_isName hname)
  have hequals : '=' ∉ language.parameterText type x :=
    notMem_parameterText ht hx (by decide) (by decide) (by decide)
  obtain ⟨lead, tail, htext, hlead, htail⟩ := exists_parameterText language ht
  -- the type is cut off at its colon
  have hcolon : ':' ∉ lead ++ x := by
    rw [List.mem_append, not_or]
    refine ⟨?_, Text.notMem_of_isName hname (by decide)⟩
    rcases hlead with ⟨rfl, -⟩ | ⟨w, rfl, -, hw, -⟩
    · simp
    · intro h
      simp only [List.mem_append, List.mem_singleton, Char.reduceEq, or_false] at h
      exact absurd (hw _ h) (by decide)
  have hbefore : ((language.parameterText type x).before '=').before ':' = lead ++ x := by
    rw [Text.before_eq_self hequals, htext, ← List.append_assoc, Text.before_append hcolon]
    rcases htail with rfl | rfl <;> simp [Text.before]
  rcases hlead with ⟨rfl, hl⟩ | ⟨w, rfl, hne, hw, hswift⟩
  · rw [Parameter.ofText?, hbefore, List.nil_append, hsingle]
    simp [stripStars_of_isName hname, hname, hfree, hl]
  · -- two words: a type in Java, a label in Swift
    have hwords : Text.words (w ++ ' ' :: x) = w :: x.words :=
      Text.words_append_cons hne (fun c hc => isWhiteSpace_eq_false_of_isWord (hw c hc)) (by decide)
    rw [hsingle] at hwords
    rw [Parameter.ofText?, hbefore, List.append_assoc, List.singleton_append, hwords]
    by_cases hl : language = .swift
    · obtain rfl := hswift hl
      subst hl
      simp [stripStars_of_isName hname, hname, hfree]
    · simp [stripStars_of_isName hname, hname, hfree, hl]

theorem split_parameterText (ht : IsLetters type) (hx : x.isAsciiName) :
    Nesting.split true (language.parameterText type x) = [language.parameterText type x] := by
  have hne := Text.ne_nil_of_isAsciiName hx
  have hws := Text.isWhiteSpace_of_isName (Text.isName_of_isAsciiName hx)
  have hcomma : ',' ∉ language.parameterText type x :=
    notMem_parameterText ht hx (by decide) (by decide) (by decide)
  obtain ⟨lead, tail, htext, hlead, htail⟩ := exists_parameterText language ht
  have hhead : ∀ c ∈ (language.parameterText type x).head?, isWhiteSpace c = false := by
    rw [htext]
    rcases hlead with ⟨rfl, -⟩ | ⟨w, rfl, hne', hw, -⟩
    · rw [List.nil_append]
      exact Text.head_of_append hne hws
    · rw [List.append_assoc]
      exact Text.head_of_append hne' fun c hc => isWhiteSpace_eq_false_of_isWord (hw c hc)
  have hlast : ∀ c ∈ (language.parameterText type x).getLast?, isWhiteSpace c = false := by
    rw [htext, ← List.append_assoc]
    rcases htail with rfl | rfl
    · rw [List.append_nil]
      exact Text.getLast_of_append hne hws
    · have hletters : ∀ c ∈ type, isWhiteSpace c = false := fun c hc =>
        isWhiteSpace_eq_false_of_isAlpha (ht.2 c hc)
      have h := @Text.getLast_of_append _ (lead ++ x ++ [':', ' ']) _ ht.1 hletters
      simpa using h
  refine Nesting.split_of_notMem hcomma ?_ (Text.trim_eq_self hhead hlast)
  simp [htext, hne]

/-! ### Matching the header -/

theorem isLetters_definingWord (language : Language) : IsLetters language.definingWord.toList := by
  cases language <;> decide

theorem prefers_parameterList (ht : ')' ∉ t) :
    Prefers Signature.parameterList seen ('(' :: (t ++ [')'])) rest g
      ((2, Span.of ('(' :: seen) t (')' :: rest)) :: g) := by
  have hmany : Prefers (many (· != ')')) ('(' :: seen) t (')' :: rest) g g := by
    refine prefers_many (fun c hc => ?_) (head_of_cons (by decide))
    rw [bne_iff_ne]
    rintro rfl
    exact ht hc
  have hopen : Prefers (char '(') seen ['('] (t ++ ')' :: rest) g g := prefers_char '('
  have h := (hopen.append (hmany.group 2)).append (v := [')']) (prefers_char ')')
  simpa [Signature.parameterList] using h

theorem fails_typeParameters (h : rest.head? ≠ some '<') : Fails Signature.typeParameters seen rest :=
  ((fails_char h).append _).append _

/-- A name in front of a parenthesis has no receiver before it. -/
theorem fails_receiver (hname : ∀ c ∈ name, isWord c) :
    Fails (atLeastOne (fun c => isWord c || c == '.') ++ char '.') seen (name ++ '(' :: rest) := by
  rintro w rest' g g' hr ⟨k, _, _, rfl, hk, hdot⟩
  obtain ⟨rfl, -⟩ := takes_char.1 hdot
  obtain ⟨⟨-, hk⟩, -⟩ := takes_atLeastOne.1 hk
  rw [List.append_assoc] at hr
  have hclass : (isWord '(' || '(' == '.') = false := by decide
  have hnotMem : '.' ∉ name := fun hdot => absurd (hname _ hdot) (by decide)
  exact Text.append_ne_append_of_notMem hclass (by decide) hnotMem hk hr

/-- The keyword and the space behind it, up to a name. -/
theorem prefers_headerLead (language : Language) (hseen : seen.head?.any isWord = false)
    (hne : name ≠ []) (hname : ∀ c ∈ name, isWord c) :
    Prefers language.headerLead seen (language.definingWord.toList ++ [' ']) (name ++ '(' :: rest) g g := by
  obtain ⟨hkeyword, hletters⟩ := isLetters_definingWord language
  have hhead : ∀ c ∈ (name ++ '(' :: rest).head?, isWord c := by
    obtain ⟨d, z, rfl⟩ := List.exists_cons_of_ne_nil hne
    simpa using hname d (by simp)
  have hgap : ∀ {seen}, Prefers gap seen [' '] (name ++ '(' :: rest) g g :=
    prefers_gap (by simp) (by decide) fun c hc => isWhiteSpace_eq_false_of_isWord (hhead c hc)
  have hstart : Prefers wordBoundary seen [] (language.definingWord.toList ++ ' ' :: (name ++ '(' :: rest))
      g g := by
    obtain ⟨c, z, hz⟩ := List.exists_cons_of_ne_nil hkeyword
    rw [hz, List.cons_append]
    exact prefers_wordBoundary_of_isWord (isWord_of_isAlpha (hletters c (by simp [hz]))) hseen
  cases language with
  | kotlin =>
    have hangle : (name ++ '(' :: rest).head? ≠ some '<' := fun h => absurd (hhead _ h) (by decide)
    have h := (hstart.append (prefers_exactly "fun")).append (v := [' ']) hgap
    have h1 := h.append (v := []) (prefers_optional ((fails_typeParameters hangle).append blanks))
    exact h1.append (v := []) (prefers_optional (fails_receiver hname))
  | java =>
    have hresult : Prefers (atLeastOne fun c => isWord c || c == '<' || c == '>' || c == '[' || c == ']')
        seen "void".toList (' ' :: (name ++ '(' :: rest)) g g :=
      prefers_atLeastOne hkeyword (by decide) (head_of_cons (by decide))
    exact (hstart.append hresult).append (v := [' ']) hgap
  | python => exact (hstart.append (prefers_exactly "def")).append (v := [' ']) hgap
  | javaScript =>
    have hstar : ∀ {seen}, Fails (char '*') seen (' ' :: (name ++ '(' :: rest)) := fails_char (by simp)
    have h := (hstart.append (prefers_exactly "function")).append (v := []) (prefers_optional hstar)
    exact h.append (v := [' ']) hgap
  | swift => exact (hstart.append (prefers_exactly "func")).append (v := [' ']) hgap

/-- The groups of a header's match: the parameters and the name, with what stands before the name,
nearest character first, and what follows the parameters. -/
def headerGroups (before name parameters after : Text) : List (Nat × Span) :=
  [(2, Span.of ('(' :: (name.reverse ++ before)) parameters (')' :: after)),
    (1, Span.of before name ('(' :: (parameters ++ ')' :: after)))]

theorem ofMatch?_headerGroups {before parameters after w r : Text} (hname : name ∉ Signature.keywords) :
    Signature.ofMatch? language (matchOf seen w r (headerGroups before name parameters after)) =
      some ⟨name, (Nesting.split true parameters).filterMap (Parameter.ofText? language),
        before.length⟩ := by
  have hspan : (matchOf seen w r (headerGroups before name parameters after)).groupSpan? 1 =
      some (Span.of before name ('(' :: (parameters ++ ')' :: after))) := rfl
  have hgroup : (matchOf seen w r (headerGroups before name parameters after)).group? 2 =
      some parameters := congrArg some (Span.text_of _ _ _)
  have hindex : (Span.of before name ('(' :: (parameters ++ ')' :: after))).start.index =
      before.length := rfl
  simp [Signature.ofMatch?, hspan, hgroup, hindex, hname]

theorem prefers_headerName (language : Language) (hseen : seen.head?.any isWord = false) (hne : name ≠ [])
    (hname : ∀ c ∈ name, isWord c) :
    Prefers (language.headerLead ++ group 1 word ++ blanks) seen
      (language.definingWord.toList ++ [' '] ++ name ++ []) ('(' :: rest) []
      [(1, Span.of ((language.definingWord.toList ++ [' ']).reverse ++ seen) name ('(' :: rest))] := by
  have hparen : ∀ {p : Char → Bool}, p '(' = false → ∀ c ∈ ('(' :: rest).head?, p c = false :=
    fun h => head_of_cons h
  have hlead : Prefers language.headerLead seen (language.definingWord.toList ++ [' '])
      (name ++ '(' :: rest) [] [] := prefers_headerLead language hseen hne hname
  exact (hlead.append ((prefers_word hne hname (hparen (by decide))).group 1)).append
    (prefers_blanks rfl (hparen (by decide)))

theorem prefers_headerParts (language : Language) (hseen : seen.head?.any isWord = false) (hne : name ≠ [])
    (hname : ∀ c ∈ name, isWord c) (ht : ')' ∉ t) :
    Prefers (language.headerLead ++ group 1 word ++ blanks ++ Signature.parameterList) seen
      (language.definingWord.toList ++ ' ' :: (name ++ '(' :: (t ++ [')']))) rest []
      (headerGroups ((language.definingWord.toList ++ [' ']).reverse ++ seen) name t rest) := by
  have hstart := @prefers_headerName seen name (t ++ [')'] ++ rest) language hseen hne hname
  have h := hstart.append (v := '(' :: (t ++ [')'])) (prefers_parameterList ht)
  simpa [headerGroups] using h

/-- **A header is matched from its keyword on, up to the first closing parenthesis**, if nothing has to
follow. -/
theorem prefers_namedHeader (hl : language ≠ .java) (hseen : seen.head?.any isWord = false) (hne : name ≠ [])
    (hname : ∀ c ∈ name, isWord c) (ht : ')' ∉ t) :
    Prefers language.namedHeader seen
      (language.definingWord.toList ++ ' ' :: (name ++ '(' :: (t ++ [')']))) rest []
      (headerGroups ((language.definingWord.toList ++ [' ']).reverse ++ seen) name t rest) := by
  cases language with
  | kotlin => exact prefers_headerParts .kotlin hseen hne hname ht
  | python => exact prefers_headerParts .python hseen hne hname ht
  | javaScript => exact prefers_headerParts .javaScript hseen hne hname ht
  | java => exact absurd rfl hl
  | swift =>
    -- type parameters may stand behind the name
    have hangle : ∀ {seen}, Fails Signature.typeParameters seen ('(' :: (t ++ [')'] ++ rest)) :=
      fails_typeParameters (by simp)
    have hblanks : ∀ {seen g}, Prefers blanks seen [] ('(' :: (t ++ [')'] ++ rest)) g g :=
      prefers_blanks rfl (head_of_cons (by decide))
    have hstart := @prefers_headerName seen name (t ++ [')'] ++ rest) .swift hseen hne hname
    have h1 := (hstart.append (v := []) (prefers_optional hangle)).append (v := []) hblanks
    have h2 := h1.append (v := '(' :: (t ++ [')'])) (prefers_parameterList ht)
    have hheader : Language.swift.namedHeader = Language.swift.headerLead ++ group 1 word ++ blanks ++
        optional Signature.typeParameters ++ blanks ++ Signature.parameterList := rfl
    rw [hheader]
    simpa [headerGroups] using h2

/-- So is a header with a body, in Java up to the sign of the body. -/
theorem exists_prefers_namedHeader (language : Language) (hseen : seen.head?.any isWord = false)
    (hne : name ≠ []) (hname : ∀ c ∈ name, isWord c) (ht : ')' ∉ t) (hgap : gap.isBlank) :
    ∃ v r, gap ++ language.bodySign :: rest = v ++ r ∧
      Prefers language.namedHeader seen
        (language.definingWord.toList ++ ' ' :: (name ++ '(' :: (t ++ ')' :: v))) r []
        (headerGroups ((language.definingWord.toList ++ [' ']).reverse ++ seen) name t (v ++ r)) := by
  by_cases hl : language = .java
  · subst hl
    have hbrace : ∀ {p : Char → Bool}, p '{' = false → ∀ c ∈ ('{' :: rest).head?, p c = false :=
      fun h => head_of_cons h
    -- no `throws` stands between the parameters and the body
    have hthrows : ∀ {seen} (thrown : Char → Bool),
        Fails (exactly "throws" ++ Pattern.gap ++ one thrown ++ fewest thrown) seen ('{' :: rest) := by
      intro seen thrown
      have hword : Fails (exactly "throws") seen ('{' :: rest) := by
        intro w r g g' hr h
        obtain ⟨rfl, -⟩ := takes_exactly.1 h
        exact absurd (List.cons_eq_cons.1 hr).1 (by decide)
      exact ((hword.append _).append _).append _
    have hblank : ∀ {seen g}, Prefers blanks seen [] ('{' :: rest) g g :=
      prefers_blanks rfl (hbrace (by decide))
    have hparts := @prefers_headerParts seen t name (gap ++ '{' :: rest) .java hseen hne hname ht
    have h1 := hparts.append (prefers_blanks hgap (hbrace (by decide)))
    have h2 := h1.append (v := []) (prefers_optional
      (hthrows fun c => isWord c || c == '.' || c == ',' || isWhiteSpace c))
    have h3 := (h2.append (v := []) hblank).append (v := ['{']) (prefers_char '{')
    have hheader : Language.java.namedHeader = Language.java.headerLead ++ group 1 word ++ blanks ++
        Signature.parameterList ++ blanks ++ optional (exactly "throws" ++ Pattern.gap ++
          one (fun c => isWord c || c == '.' || c == ',' || isWhiteSpace c) ++
          fewest fun c => isWord c || c == '.' || c == ',' || isWhiteSpace c) ++ blanks ++ char '{' := rfl
    refine ⟨gap ++ ['{'], rest, by simp [Language.bodySign], ?_⟩
    rw [hheader]
    simpa using h3
  · exact ⟨[], gap ++ language.bodySign :: rest, rfl, prefers_namedHeader hl hseen hne hname ht⟩

/-! ### Finding the header -/

namespace Definition

variable (d : Definition language) {z w s u v lead r : Text}

theorem text_append (r : Text) : d.text ++ r =
    d.modifiers ++ (d.head ++ '(' :: (d.parameters ++ ')' :: (d.gap ++ language.bodySign :: r))) := by
  simp [text]

theorem forall_mem_opening : ∀ c ∈ d.modifiers ++ d.head, isWord c ∨ isWhiteSpace c := by
  rw [List.forall_mem_append, head, List.forall_mem_append, List.forall_mem_cons]
  refine ⟨fun c hc => ?_, fun c hc => ?_, Or.inr (by decide), fun c hc => ?_⟩
  · exact (d.modifiers_plain c hc).imp_left isWord_of_isAlpha
  · exact Or.inl (isWord_of_isAlpha ((isLetters_definingWord language).2 c hc))
  · exact Or.inl (Text.isWord_of_isAsciiName d.name_ascii c hc)

theorem notMem_opening {c : Char} (hword : isWord c = false) (hws : isWhiteSpace c = false) :
    c ∉ d.modifiers ++ d.head := by
  intro hc
  have h := d.forall_mem_opening c hc
  simp [hword, hws] at h

/-- The last word before the parenthesis is the name, and before that stands the keyword. -/
theorem lastWord_head : lastWord (d.head.reverse ++ seen) = d.name.reverse ∧
    beforeLastWord (d.head.reverse ++ seen) = language.definingWord.toList.reverse ++ seen := by
  obtain ⟨hne, hletters⟩ := isLetters_definingWord language
  have hhead : ∀ c ∈ (language.definingWord.toList.reverse ++ seen).head?, isWhiteSpace c = false := by
    refine Text.head_of_append (by simpa using hne) fun c hc => ?_
    exact isWhiteSpace_eq_false_of_isAlpha (hletters c (List.mem_reverse.1 hc))
  have hspace : ∀ c ∈ (' ' :: (language.definingWord.toList.reverse ++ seen)).head?, isWord c = false :=
    head_of_cons (by decide)
  obtain ⟨h1, h2⟩ := @Text.lastWord_append [] _ _ rfl (Text.ne_nil_of_isAsciiName d.name_ascii)
    (Text.isWord_of_isAsciiName d.name_ascii) hspace
  have htrim : Text.trimStart (' ' :: (language.definingWord.toList.reverse ++ seen)) = _ :=
    @Text.trimStart_append [' '] _ (by decide) hhead
  rw [htrim] at h2
  have htext : d.head.reverse ++ seen =
      [].reverse ++ (d.name.reverse ++ ' ' :: (language.definingWord.toList.reverse ++ seen)) := by
    simp [head]
  rw [htext]
  exact ⟨h1, h2⟩

/-- Behind the parenthesis there is no other one up to the body. -/
theorem noneOpens_text {way : Text → Prop} (hr : NoneOpens way d.text.reverse r) :
    NoneOpens way ('(' :: (d.modifiers ++ d.head).reverse)
      (d.parameters ++ ')' :: (d.gap ++ language.bodySign :: r)) := by
  have hname : '(' ∉ d.parameters :=
    notMem_parameterText d.type_letters d.parameter_ascii (by decide) (by decide) (by decide)
  have hgap : '(' ∉ d.gap := Text.notMem_of_isBlank d.gap_blank (by decide)
  have hsign : '(' ≠ language.bodySign := by cases language <;> decide
  have hparen : '(' ∉ d.parameters ++ ')' :: (d.gap ++ [language.bodySign]) := by
    simp [hname, hgap, hsign]
  have h := (noneOpens_of_notMem hparen).append (by simpa [text] using hr)
  simpa using h

/-- A header that stands in the text with its parenthesis ends where the definition's name ends, and
what leads to the name is the same. -/
theorem append_lead_eq (hv : NoneOpens language.EndsHeader ('(' :: (d.modifiers ++ d.head).reverse) v)
    (hs : language.WritesHeader lead s) (h : z ++ (s ++ '(' :: t) = d.modifiers ++ (d.head ++ '(' :: v)) :
    z ++ lead = d.modifiers ++ language.definingWord.toList ∧ z ++ s = d.modifiers ++ d.head := by
  have hparen : NoneOpens language.EndsHeader [] (d.modifiers ++ d.head) :=
    noneOpens_of_notMem (d.notMem_opening (by decide) (by decide))
  have hends : language.EndsHeader (s.reverse ++ z.reverse) := hs.endsHeader
  obtain ⟨heq, -⟩ := hparen.unique (s := z ++ s) (by simpa using hv) (by simpa using h)
    (by simpa using hends)
  have hbefore : beforeLastWord (s.reverse ++ z.reverse) = lead.reverse ++ z.reverse :=
    hs.beforeLastWord_eq
  rw [← List.reverse_append, heq, List.reverse_append, d.lastWord_head.2, ← List.reverse_append,
    ← List.reverse_append, List.reverse_inj] at hbefore
  exact ⟨hbefore.symm, heq⟩

theorem matchAt?_modifiers (hv : NoneOpens language.EndsHeader ('(' :: (d.modifiers ++ d.head).reverse) v)
    (hu : d.modifiers = z ++ u) (hne : u ≠ []) :
    language.namedHeader.matchAt? (between (z.reverse ++ []) (u ++ (d.head ++ '(' :: v))) = none := by
  refine matchAt?_eq_none_iff.2 fun w rest g hw h => ?_
  obtain ⟨lead, s, t, rfl, hs, hwords⟩ := exists_of_takes_namedHeader h
  have htext : z ++ (s ++ '(' :: (t ++ rest)) = d.modifiers ++ (d.head ++ '(' :: v) := by
    rw [hu, List.append_assoc, hw]
    simp
  obtain ⟨hlead, -⟩ := d.append_lead_eq hv hs htext
  rw [hu, List.append_assoc] at hlead
  obtain rfl := List.append_cancel_left hlead
  -- the lead would be one word up to the keyword, but the modifiers do not end in a word
  obtain ⟨y, c, rfl⟩ : ∃ y c, u = y ++ [c] := ⟨_, _, (List.dropLast_append_getLast hne).symm⟩
  have hc : isWord c := by
    refine hwords (fun e he => ?_) c (by simp)
    rcases List.mem_append.1 he with he | he
    · exact (d.modifiers_plain e (by rw [hu]; simp [he])).imp_left isWord_of_isAlpha
    · exact Or.inl (isWord_of_isAlpha ((isLetters_definingWord language).2 e he))
  have hapart := d.modifiers_apart
  rw [hu, ← List.append_assoc, List.getLast?_concat, Option.any_some, hc] at hapart
  cases hapart

/-- **The header is found, and no other header with a keyword**, if behind it no parenthesis stands like
one of a header. -/
theorem exists_findAll_namedHeader (hr : NoneOpens language.EndsHeader d.text.reverse r) :
    ∃ m, language.namedHeader.findAll (d.text ++ r) = [m] ∧
      Signature.ofMatch? language m = some d.signature := by
  have hseen : d.modifiers.reverse.head?.any isWord = false := by
    rw [List.head?_reverse]
    exact d.modifiers_apart
  have hclose : ')' ∉ d.parameters :=
    notMem_parameterText d.type_letters d.parameter_ascii (by decide) (by decide) (by decide)
  have hopening := d.noneOpens_text hr
  have hmatch : ∃ v w, d.gap ++ language.bodySign :: r = v ++ w ∧ _ :=
    exists_prefers_namedHeader language hseen (Text.ne_nil_of_isAsciiName d.name_ascii)
      (Text.isWord_of_isAsciiName d.name_ascii) hclose d.gap_blank
  obtain ⟨v, w, hvw, hmatch⟩ := hmatch
  have htext : d.head ++ '(' :: (d.parameters ++ ')' :: (d.gap ++ language.bodySign :: r)) =
      language.definingWord.toList ++ ' ' :: (d.name ++ '(' :: (d.parameters ++ ')' :: v)) ++ w := by
    simp [head, hvw]
  -- behind the header no parenthesis stands like one of a header
  have hrest : language.namedHeader.findFrom ((language.definingWord.toList ++
      ' ' :: (d.name ++ '(' :: (d.parameters ++ ')' :: v))).reverse ++ d.modifiers.reverse) w = [] := by
    have hbehind : d.parameters ++ ')' :: (d.gap ++ language.bodySign :: r) =
        d.parameters ++ ')' :: v ++ w := by simp [hvw]
    refine (opens_namedHeader language).findFrom_eq_nil ?_
    have h := (hbehind ▸ hopening).right
    simpa [head] using h
  have hfound := findFrom_of_some (by simp) hmatch.matchAt?
  rw [hrest] at hfound
  have hall : language.namedHeader.findAll (d.text ++ r) =
      language.namedHeader.findFrom d.modifiers.reverse
        (d.head ++ '(' :: (d.parameters ++ ')' :: (d.gap ++ language.bodySign :: r))) := by
    rw [findAll_eq_findFrom, d.text_append, findFrom_append_of_none fun u₁ u₂ hu hne =>
      d.matchAt?_modifiers hopening hu hne, List.append_nil]
  rw [htext, hfound] at hall
  refine ⟨_, hall, ?_⟩
  rw [ofMatch?_headerGroups d.name_free, parameters, split_parameterText d.type_letters d.parameter_ascii,
    List.filterMap_cons_some (ofText?_parameterText d.type_letters d.parameter_ascii d.parameter_free)]
  simp [signature]
  omega

end Definition

/-! ### Functions bound to names -/

/-- Whether a signature is that of a function bound to a name: the name stands in the text behind words
and white space and before an `=`. -/
def Signature.IsBound (s : Signature) (t : Text) : Prop :=
  ∃ u z b v, t = u ++ (z ++ (s.name ++ (b ++ '=' :: v))) ∧ s.position = (u ++ z).length ∧
    (∀ c ∈ z ++ (s.name ++ b), isWord c ∨ isWhiteSpace c) ∧ Text.isBlank b

/-- What is taken as a function without parentheses begins with the name that it is bound to. -/
theorem exists_of_takes_arrowHeader {w : Text} (h : Takes arrowHeader seen w rest [] g) :
    ∃ z name b a, w = z ++ (name ++ (b ++ '=' :: a)) ∧
      (∀ c ∈ z ++ (name ++ b), isWord c ∨ isWhiteSpace c) ∧ Text.isBlank b ∧
      g.lookup 1 = some (Span.of (z.reverse ++ seen) name (b ++ '=' :: (a ++ rest))) := by
  obtain ⟨_, e, _, rfl, ⟨_, b', _, rfl, ⟨_, x, _, rfl, hbound, hx⟩, hb'⟩, he⟩ := h
  obtain ⟨-, rfl⟩ := takes_exactly.1 he
  obtain ⟨-, rfl⟩ := takes_blanks.1 hb'
  obtain ⟨_, hx, rfl⟩ := hx
  obtain ⟨-, rfl⟩ := takes_word.1 hx
  obtain ⟨z, name, b, a, rfl, hz, hname, hb, -, rfl⟩ := takes_boundFunction hbound
  refine ⟨z, name, b, a ++ x ++ b' ++ e, by simp, ?_, hb, by simp [List.lookup_cons]⟩
  simp only [List.forall_mem_append]
  exact ⟨hz, fun c hc => Or.inl (hname.2 c hc), fun c hc => Or.inr (List.all_eq_true.1 hb c hc)⟩

theorem isBound_of_mem_arrows {s : Signature}
    (h : s ∈ (arrowHeader.findAll t).filterMap (Signature.ofMatch? .javaScript)) : s.IsBound t := by
  obtain ⟨m, hm, hs⟩ := List.mem_filterMap.1 h
  obtain ⟨u, w, rest, g, rfl, rfl, hw⟩ := takes_of_mem_findAll hm
  obtain ⟨z, name, b, a, rfl, hwords, hb, hspan⟩ := exists_of_takes_arrowHeader hw
  have hspan : (matchOf u.reverse (z ++ (name ++ (b ++ '=' :: a))) rest g).groupSpan? 1 = _ := hspan
  have hindex : (Span.of (z.reverse ++ u.reverse) name (b ++ '=' :: (a ++ rest))).start.index =
      (u ++ z).length := by
    rw [← List.reverse_append]
    exact List.length_reverse
  simp only [Signature.ofMatch?, hspan, hindex, Span.text_of, Option.bind_eq_bind, Option.bind_some] at hs
  split at hs
  · cases hs
  · obtain rfl := Option.some.inj hs
    exact ⟨u, z, b, a ++ rest, by simp, rfl, hwords, hb⟩

/-- No name that a function is bound to stands in front of a parenthesis. -/
theorem Signature.IsBound.not_called {s : Signature} {u v : Text} (h : s.IsBound (u ++ (name ++ '(' :: v))) :
    ¬ (s.position = u.length ∧ s.name = name) := by
  obtain ⟨x, z, b, y, ht, hposition, -, hb⟩ := h
  rintro ⟨hlength, rfl⟩
  rw [← List.append_assoc x] at ht
  obtain ⟨-, ht⟩ := List.append_inj ht (hlength.symm.trans hposition)
  have ht := List.append_cancel_left ht
  cases b with
  | nil => exact absurd (List.cons_eq_cons.1 ht).1 (by decide)
  | cons c b =>
    obtain ⟨rfl, -⟩ := List.cons_eq_cons.1 ht
    exact Text.notMem_of_isBlank hb (c := '(') (by decide) (by simp)

/-- Such a name stands behind a parenthesis that no `=` stands before. -/
theorem Signature.IsBound.length_lt {s : Signature} {u v : Text} (h : s.IsBound (u ++ '(' :: v))
    (hu : '=' ∉ u) : u.length < s.position := by
  obtain ⟨x, z, b, y, ht, hposition, hwords, -⟩ := h
  have hnone : ∀ {k : Text}, '=' ∉ k → k ++ '(' :: v ≠ z ++ (s.name ++ (b ++ '=' :: y)) := by
    intro k hk h
    have hclass : (isWord '(' || isWhiteSpace '(') = false := by decide
    have hwords : ∀ c ∈ z ++ (s.name ++ b), isWord c || isWhiteSpace c := by simpa using hwords
    exact Text.append_ne_append_of_notMem hclass (by decide) hk hwords (by simpa using h)
  rw [hposition]
  rcases List.append_eq_append_iff.1 ht with ⟨k, rfl, hk⟩ | ⟨k, rfl, hk⟩
  · cases k with
    | nil => exact absurd hk (hnone List.not_mem_nil)
    | cons c k => simp
  · rw [List.mem_append, not_or] at hu
    exact absurd hk.symm (hnone hu.2)

/-! ### The signatures of a text with one definition -/

namespace Definition

variable (d : Definition language) {r : Text}

/-- No function with parameters in parentheses is bound to a name. -/
theorem findAll_boundHeader (d : Definition .javaScript)
    (hr : NoneOpens Language.javaScript.EndsHeader d.text.reverse r) :
    boundHeader.findAll (d.text ++ r) = [] := by
  refine findFrom_eq_nil fun z w rest g hw h => ?_
  obtain ⟨lead, s, t, rfl, hs, hequals⟩ := exists_of_takes_boundHeader h
  have htext : z ++ (s ++ '(' :: (t ++ rest)) = d.modifiers ++ (d.head ++ '(' ::
      (d.parameters ++ ')' :: (d.gap ++ Language.javaScript.bodySign :: r))) := by
    rw [← d.text_append, hw]
    simp
  obtain ⟨hlead, -⟩ := d.append_lead_eq (d.noneOpens_text hr) hs htext
  have hmem : '=' ∈ d.modifiers ++ Language.javaScript.definingWord.toList := by
    rw [← hlead]
    exact List.mem_append_right z hequals
  have hnone := d.notMem_opening (c := '=') (by decide) (by decide)
  simp only [head, List.mem_append, not_or] at hmem hnone
  exact hmem.elim hnone.1 hnone.2.1

/-- **The first signature of a text that begins with a definition is that of the definition**, if no
other parenthesis stands like one of a header.  The others are those of functions that are bound to
names without parentheses. -/
theorem exists_signatures_eq_cons (hr : NoneOpens language.EndsHeader d.text.reverse r) :
    ∃ others, signatures language (d.text ++ r) = d.signature :: others ∧
      ∀ s ∈ others, s.IsBound (d.text ++ r) := by
  obtain ⟨m, hfound, hread⟩ := d.exists_findAll_namedHeader hr
  by_cases hl : language = .javaScript
  · subst hl
    have hbound : ∀ s ∈ ((arrowHeader.findAll (d.text ++ r)).filterMap
        (Signature.ofMatch? .javaScript)).foldr Signature.insert [], s.IsBound (d.text ++ r) :=
      fun s hs => isBound_of_mem_arrows (Signature.mem_foldr_insert.1 hs)
    refine ⟨_, ?_, hbound⟩
    -- they stand behind the definition's parenthesis, so sorting by position leaves it first
    have hfirst : ∀ s ∈ ((arrowHeader.findAll (d.text ++ r)).filterMap
        (Signature.ofMatch? .javaScript)).foldr Signature.insert [], d.signature.position ≤ s.position := by
      intro s hs
      have h := hbound s hs
      rw [d.text_append, ← List.append_assoc] at h
      have hlt := h.length_lt (d.notMem_opening (by decide) (by decide))
      simp only [signature, head, List.length_append, List.length_cons, List.length_nil] at hlt ⊢
      omega
    rw [← Signature.insert_of_le hfirst]
    simp [signatures, headers_eq, hfound, hread, d.findAll_boundHeader hr]
  · refine ⟨[], ?_, by simp⟩
    simp [signatures, headers_eq, hl, hfound, hread, Signature.insert]

end Definition

end DryRun
