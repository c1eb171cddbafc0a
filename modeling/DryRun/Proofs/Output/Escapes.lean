import DryRun.Proofs.Expression.Joining
import DryRun.Proofs.StringLiteral
import DryRun.Proofs.Template

/-!
# Escapes on the way to the output

A name that is declared with a literal keeps the body of the literal as its value, escapes as written.
There are several ways to print it: the literal itself, the name, the name joined to an empty text, a
template that is a marker around the name.  A literal and a template resolve the escapes, a name and a
joining do not (`printedArgument_spellings_iff`).
-/

namespace DryRun

open StringLiteral

variable {language : Language} {b : Bindings} {x v : Text}

/-! ### Joining to an empty text -/

namespace Expression

/-- The joining of an empty text and a name. -/
def emptyPlus (x : Text) : Text := '"' :: '"' :: ' ' :: '+' :: ' ' :: x

theorem isTrimmed_quotes : Text.IsTrimmed ['"', '"'] :=
  Text.isTrimmed_of_forall (by decide) (by decide)

theorem isTrimmed_emptyPlus (hx : x.isName) : (emptyPlus x).IsTrimmed :=
  isTrimmed_operation isTrimmed_quotes (Text.isTrimmed_of_isName hx) .add [' '] [' ']

theorem calculate?_emptyPlus (hx : x.isName) (hb : b.get? ['"', '"'] = none) :
    calculate? b (emptyPlus x) = none := by
  have hblank : Text.isBlank [' '] := rfl
  have hcut : cut Operation.ofText? (emptyPlus x) = some (['"', '"'], .add, x) :=
    cut_operation isTrimmed_quotes (by decide) (Text.isTrimmed_of_isName hx) .add hblank hblank
  have hoperand : operand? b ['"', '"'] = none := by
    simp only [operand?, Bindings.number?, hb]
    rfl
  simp [calculate?, hcut, hoperand]

theorem compare?_emptyPlus (hx : x.isName) : compare? b (emptyPlus x) = none := by
  have hname : '=' ∉ x := Text.notMem_of_isName hx (by decide)
  exact compare?_eq_none_of_notMem (by simpa [emptyPlus] using hname)

theorem join?_emptyPlus (hx : x.isName) (hv : b.get? x = some v) :
    join? b (emptyPlus x) = some v := by
  have hblank : Text.isBlank [' '] := rfl
  have huncut : IsUncut (' ' :: x) := (isUncut_of_isBlank hblank).append (isUncut_of_isName hx)
  have hparts : partsFrom none (emptyPlus x) = [['"', '"', ' '], ' ' :: x] := by
    have h : partsFrom none (emptyPlus x) = ['"', '"', ' '] :: partsFrom none (' ' :: x) := rfl
    rw [h, partsFrom_of_isUncut huncut]
  have htrim : Text.trim (' ' :: x) = x := by
    have h : Text.trim (' ' :: x) = Text.trim x := rfl
    rw [h, Text.trim_of_isName hx]
  have hempty : partValue? b (Text.trim ['"', '"', ' ']) = some [] := rfl
  rw [join?, if_pos (by simp [emptyPlus]), hparts]
  simp [hempty, htrim, partValue?_of_isName hx hv]

end Expression

/-! ### Four ways to print a value -/

/-- What stands before and behind the text of a template in a language. -/
def Language.templateQuotes : Language → Text × Char
  | .kotlin | .java | .swift => ([], '"')
  | .javaScript => ([], Comment.backtick)
  | .python => (['f'], '"')

/-- The template that consists of a marker around a name, if a language has templates. -/
def Language.markerTemplate? (language : Language) (x : Text) : Option Text :=
  language.braces.map fun (before, after) =>
    let (marks, quote) := language.templateQuotes
    marks ++ quote :: (before ++ (x ++ after) ++ [quote])

/-- What stands before and behind a name in the markers of a language. -/
def Language.markers (language : Language) : List (Text × Text) :=
  language.braces.toList ++ if language = .kotlin then [(['$'], [])] else []

/-- A text in the quotes of a template. -/
def Language.template (language : Language) (t : Text) : Text :=
  language.templateQuotes.1 ++ language.templateQuotes.2 :: (t ++ [language.templateQuotes.2])

/-- The ways to print what a name `x` stands for that is declared with the literal body `v`: the
literal, the name, the name joined to an empty text, and the template around the name. -/
def Language.spellings (language : Language) (x v : Text) : List Text :=
  ['"' :: (v ++ ['"']), x, Expression.emptyPlus x] ++ (language.markerTemplate? x).toList

/-- The bindings in which `x` has the value `v` and no other name has one. -/
def Bindings.declaring (x v : Text) : Bindings := (∅ : Bindings).insert x v

/-- A literal body that no quote ends early, in which no marker begins, and whose last backslash takes
a character along. -/
structure IsPlainBody (v : Text) : Prop where
  no_quotes : ∀ c ∈ v, Comment.isQuote c = false
  no_markers : ∀ c ∈ v, isMarkerSign c = false
  closed : endsOpen v = false

theorem isPlainBody_iff :
    ((v.all fun c => !Comment.isQuote c && !isMarkerSign c) && !endsOpen v) ↔ IsPlainBody v := by
  simp only [Bool.and_eq_true, List.all_eq_true, Bool.not_eq_true']
  constructor
  · rintro ⟨h, he⟩
    exact ⟨fun c hc => (h c hc).1, fun c hc => (h c hc).2, he⟩
  · rintro ⟨hq, hm, he⟩
    exact ⟨fun c hc => ⟨hq c hc, hm c hc⟩, he⟩

instance (v : Text) : Decidable (IsPlainBody v) :=
  decidable_of_iff _ isPlainBody_iff

theorem printedArgument_of_ofText? {a : Text} {l : StringLiteral} (ha : ofText? a = some l) :
    printedArgument language b a = l.printed language b := by
  obtain ⟨hlen, hm, hq, hbody⟩ := parts_of_ofText? ha
  rw [printedArgument, trim_eq_of_ofText? ha, ofText?_of_isBody hlen hm hq hbody]

theorem printedArgument_quoted {marks t : Text} {quote : Char} (hlen : marks.length ≤ 2)
    (hm : ∀ c ∈ marks, c.isAlpha) (hq : Comment.isQuote quote) (ht : IsBody quote t) :
    printedArgument language b (marks ++ quote :: (t ++ [quote])) =
      StringLiteral.printed language b ⟨marks, quote, t⟩ :=
  printedArgument_of_ofText? (ofText?_of_isBody hlen hm hq ht)

/-- A literal in which nothing is filled in prints its body with the escapes resolved. -/
theorem printedArgument_unfilled {t : Text} (ht : IsBody '"' t)
    (hfilled : isTemplate language ⟨[], '"', t⟩ → fillTemplate language b t = t) :
    printedArgument language b ('"' :: (t ++ ['"'])) = resolveEscapes t := by
  have hread : ofText? ([] ++ '"' :: (t ++ ['"'])) = some ⟨[], '"', t⟩ :=
    ofText?_of_isBody (by simp) (by simp) (by decide) ht
  have hraw : isRaw language ⟨[], '"', t⟩ = false := by simp [isRaw, hasMark]
  have hbody : (if isTemplate language ⟨[], '"', t⟩ then fillTemplate language b t else t) = t := by
    split
    · rename_i htemplate
      exact hfilled htemplate
    · rfl
  rw [List.nil_append] at hread
  rw [printedArgument_of_ofText? hread, StringLiteral.printed, hbody, hraw]
  rfl

/-- A literal prints its body with the escapes resolved. -/
theorem printedArgument_literal (hv : IsPlainBody v) :
    printedArgument language b ('"' :: (v ++ ['"'])) = resolveEscapes v := by
  have hquote : '"' ∉ v := fun h => by
    have := hv.no_quotes _ h
    exact absurd this (by decide)
  exact printedArgument_unfilled (isBody_of_notMem hquote hv.closed) fun _ =>
    fillTemplate_eq_self hv.no_markers

theorem printedArgument_of_get? (hx : x.isName) (hv : b.get? x = some v) :
    printedArgument language b x = v := by
  have htrim := Text.trim_of_isName hx
  have hnone : ofText? x = none := ofText?_of_isName hx
  simp [printedArgument, htrim, hnone, hx, hv]

theorem printedArgument_name (hx : x.isName) : printedArgument language (.declaring x v) x = v :=
  printedArgument_of_get? hx (Bindings.get?_insert_self ∅ x v)

theorem printedArgument_emptyPlus (hx : x.isName) :
    printedArgument language (.declaring x v) (Expression.emptyPlus x) = v := by
  have hget : (Bindings.declaring x v).get? x = some v := Bindings.get?_insert_self ∅ x v
  have hget' : (Bindings.declaring x v).get? ['"', '"'] = none := by
    rw [Bindings.declaring, Bindings.get?_insert, if_neg, Bindings.get?_empty]
    rintro rfl
    exact absurd hx (by decide)
  have htrim := (Expression.isTrimmed_emptyPlus hx).trim_eq
  have hnone : ofText? (Expression.emptyPlus x) = none := by
    unfold ofText?
    rw [htrim]
    rfl
  have hname : Text.isName (Expression.emptyPlus x) = false := by
    cases h : Text.isName (Expression.emptyPlus x) with
    | false => rfl
    | true =>
      have hmem : '"' ∈ Expression.emptyPlus x := by simp [Expression.emptyPlus]
      exact absurd hmem (Text.notMem_of_isName h (by decide))
  simp [printedArgument, htrim, hnone, hname, Expression.eval, Expression.eval?,
    Expression.calculate?_emptyPlus hx hget', Expression.compare?_emptyPlus hx,
    Expression.join?_emptyPlus hx hget]

/-- What stands around the text of a template are quotes, with at most two letters before them. -/
theorem templateQuotes_plain (language : Language) : language.templateQuotes.1.length ≤ 2 ∧
    (∀ c ∈ language.templateQuotes.1, c.isAlpha) ∧ Comment.isQuote language.templateQuotes.2 := by
  rw [← List.all_eq_true]
  cases language <;> decide

/-- A template prints its text with the markers filled in and the escapes resolved. -/
theorem printed_of_isTemplate {l : StringLiteral} (htemplate : l.isTemplate language)
    (hraw : l.isRaw language = false) :
    l.printed language b = resolveEscapes (fillTemplate language b l.body) := by
  rw [StringLiteral.printed, if_pos htemplate, hraw]
  rfl

theorem printedArgument_template {t : Text} (hl : language ≠ .java)
    (ht : IsBody language.templateQuotes.2 t) :
    printedArgument language b (language.template t) = resolveEscapes (fillTemplate language b t) := by
  obtain ⟨hlen, hmarks, hquote⟩ := templateQuotes_plain language
  have htemplate : isTemplate language ⟨language.templateQuotes.1, language.templateQuotes.2, t⟩ := by
    cases language <;> first | exact absurd rfl hl | rfl
  have hraw : isRaw language ⟨language.templateQuotes.1, language.templateQuotes.2, t⟩ = false := by
    cases language <;> rfl
  rw [Language.template, printedArgument_quoted hlen hmarks hquote ht,
    printed_of_isTemplate htemplate hraw]

/-- A marker neither ends the literal that it stands in nor takes the closing quote along. -/
theorem marker_closed {before after : Text} (hm : (before, after) ∈ language.markers)
    (hx : x.isName) : language.templateQuotes.2 ∉ before ++ (x ++ after) ∧
      endsOpen (before ++ (x ++ after)) = false := by
  have hquote : language.templateQuotes.2 ∉ x := fun h => by
    have := isQuote_of_isName hx _ h
    rw [(templateQuotes_plain language).2.2] at this
    cases this
  have hsigns : ∀ m ∈ language.markers, language.templateQuotes.2 ∉ m.1 ++ m.2 ∧ '\\' ∉ m.2 ∧
      (m.1 = ['\\', '('] ∨ '\\' ∉ m.1) := by
    cases language <;> decide
  obtain ⟨hmark, hafter, hbefore⟩ := hsigns _ hm
  have hopen : '\\' ∉ x ++ after := fun h => by
    rcases List.mem_append.1 h with h | h
    · exact Text.notMem_of_isName hx (by decide) h
    · exact hafter h
  refine ⟨by simpa [hquote] using hmark, ?_⟩
  rcases hbefore with hbefore | hbefore
  · -- the backslash takes the bracket along
    obtain rfl : before = ['\\', '('] := hbefore
    have hclosed := endsOpen_of_notMem hopen
    exact hclosed
  · refine endsOpen_of_notMem fun h => ?_
    rcases List.mem_append.1 h with h | h
    · exact hbefore h
    · exact hopen h

/-- A template that is a marker around the name prints its value with the escapes resolved. -/
theorem printedArgument_markerTemplate (hx : x.isName) :
    ∀ a ∈ language.markerTemplate? x,
      printedArgument language (.declaring x v) a = resolveEscapes v := by
  intro a ha
  obtain ⟨⟨before, after⟩, hbraces, rfl⟩ := Option.map_eq_some_iff.1 ha
  have hget : (Bindings.declaring x v).get? x = some v := Bindings.get?_insert_self ∅ x v
  have hl : language ≠ .java := by
    rintro rfl
    cases hbraces
  obtain ⟨hquote, hclosed⟩ := marker_closed (List.mem_append_left _ (Option.mem_toList.2 hbraces)) hx
  have htemplate := printedArgument_template (b := .declaring x v) hl (isBody_of_notMem hquote hclosed)
  rwa [fillTemplate_marker hbraces hx hget] at htemplate

/-- What each way prints: the literal and the template resolve the escapes, the name and the joining
do not. -/
theorem printedArgument_of_mem_spellings (hx : x.isName) (hv : IsPlainBody v) :
    ∀ a ∈ language.spellings x v, printedArgument language (.declaring x v) a = resolveEscapes v ∨
      printedArgument language (.declaring x v) a = v := by
  intro a ha
  simp only [Language.spellings, List.mem_append, List.mem_cons, List.not_mem_nil, or_false,
    Option.mem_toList] at ha
  rcases ha with (rfl | rfl | rfl) | ha
  · exact Or.inl (printedArgument_literal hv)
  · exact Or.inr (printedArgument_name hx)
  · exact Or.inr (printedArgument_emptyPlus hx)
  · exact Or.inl (printedArgument_markerTemplate hx a ha)

/-- **All ways print the same text exactly if the body has nothing to resolve**, that is, if no
backslash in it takes along an `n`, a `t` or a backslash. -/
theorem printedArgument_spellings_iff (language : Language) (hx : x.isName) (hv : IsPlainBody v) :
    (∀ a ∈ language.spellings x v, ∀ a' ∈ language.spellings x v,
      printedArgument language (.declaring x v) a = printedArgument language (.declaring x v) a') ↔
        ∀ c ∈ escaped v, c ≠ 'n' ∧ c ≠ 't' ∧ c ≠ '\\' := by
  have hescape : resolveEscapes v = v ↔ ∀ c ∈ escaped v, c ≠ 'n' ∧ c ≠ 't' ∧ c ≠ '\\' := by
    rw [resolveEscapes_eq_self_iff]
    refine forall₂_congr fun c hc => ?_
    have hquote := hv.no_quotes c (mem_of_mem_escaped hc)
    have hmarker := hv.no_markers c (mem_of_mem_escaped hc)
    simp only [isMarkerSign, Bool.or_eq_false_iff] at hmarker
    simp [isEscape, hquote, hmarker.1.1, and_assoc]
  rw [← hescape]
  constructor
  · intro h
    -- the literal and the name are two of the ways
    have h' := h ('"' :: (v ++ ['"'])) (by simp [Language.spellings]) x
      (by simp [Language.spellings])
    rwa [printedArgument_literal hv, printedArgument_name hx] at h'
  · intro h a ha a' ha'
    have hall : ∀ a ∈ language.spellings x v, printedArgument language (.declaring x v) a = v := by
      intro a ha
      rcases printedArgument_of_mem_spellings hx hv a ha with h' | h'
      · rw [h', h]
      · exact h'
    rw [hall a ha, hall a' ha']

/-- A backslash before any other letter is printed by all of them. -/
theorem printedArgument_spellings_backslash :
    let x : Text := "path".toList
    let v : Text := "C:\\dir".toList
    x.isName ∧ IsPlainBody v ∧
      ∀ a ∈ Language.kotlin.spellings x v, ∀ a' ∈ Language.kotlin.spellings x v,
        printedArgument .kotlin (.declaring x v) a = printedArgument .kotlin (.declaring x v) a' :=
  have hv : IsPlainBody "C:\\dir".toList := by decide
  have he : escaped "C:\\dir".toList = ['d'] := by decide
  ⟨by decide, hv, (printedArgument_spellings_iff .kotlin (by decide) hv).2 (by rw [he]; simp)⟩

/-- A tab is printed by the literal, and the escape for it by the name. -/
theorem not_printedArgument_spellings :
    ¬ ∀ (language : Language) (x v : Text), x.isName → IsPlainBody v →
      ∀ a ∈ language.spellings x v, ∀ a' ∈ language.spellings x v,
        printedArgument language (.declaring x v) a =
          printedArgument language (.declaring x v) a' := by
  intro h
  have hv : IsPlainBody "a\\tb".toList := by decide
  have h' := h .kotlin "x".toList "a\\tb".toList (by decide) hv "\"a\\tb\"".toList (by decide)
    "x".toList (by decide)
  exact absurd h' (by decide)

end DryRun
