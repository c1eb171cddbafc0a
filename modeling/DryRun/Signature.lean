import DryRun.Language
import DryRun.Nesting
import DryRun.Pattern.Search

/-!
# Signatures

The functions that a snippet defines: their names and the names of their parameters, without types,
defaults and modifiers.
-/

namespace DryRun

/-- A parameter of a function. -/
structure Parameter where
  /-- The name by which a call may refer to the parameter; none if it may not. -/
  label : Option Text
  /-- The name by which the body refers to it. -/
  name : Text
deriving DecidableEq, Repr

namespace Parameter

/-- A word without the stars and dots of a parameter that takes several arguments. -/
def stripStars (t : Text) : Text :=
  ((t.dropWhile fun c => c == '*' || c == '.').reverse.dropWhile (· == '.')).reverse

/-- Whether a language gives a parameter of this name its argument by itself. -/
def isReceiver (language : Language) (name : Text) : Bool :=
  language == .python && (name == "self".toList || name == "cls".toList)

/-- The parameter that a declaration such as `final Type name`, `name: Type = default` or
`label name: Type` declares: the last word before the type and the default.  In Swift the word
before that is its label, unless it is `_`. -/
def ofText? (language : Language) (t : Text) : Option Parameter :=
  match ((t.before '=').before ':').words.reverse with
  | [] => none
  | last :: earlier =>
    let name := stripStars last
    if !name.isName || isReceiver language name then none
    else
      match language, earlier with
      | .swift, label :: _ => some ⟨if label = ['_'] then none else some label, name⟩
      | _, _ => some ⟨some name, name⟩

end Parameter

/-- A function that a snippet defines. -/
structure Signature where
  name : Text
  parameters : List Parameter
  /-- How many characters of the snippet stand before the name in the header. -/
  position : Nat
deriving DecidableEq, Repr

namespace Signature

open Pattern Unicode

/-! ### Headers -/

/-- What stands between parentheses, up to the first closing one, as group 2. -/
def parameterList : Pattern := char '(' ++ group 2 (many (· != ')')) ++ char ')'

/-- What stands between angle brackets, up to the first closing one. -/
def typeParameters : Pattern := char '<' ++ many (· != '>') ++ char '>'

/-- A function bound to a name by `const`, `let` or `var`, up to the `=`. -/
def boundFunction : Pattern :=
  wordBoundary ++ oneOf ["const", "let", "var"] ++ gap ++ group 1 word ++ blanks ++ char '=' ++
    blanks ++ optional (exactly "async" ++ gap)

/-- The forms of function headers in a language.  Group 1 is the name and group 2 what stands for
the parameters. -/
def headers : Language → List Pattern
  | .kotlin =>
    let receiver := atLeastOne (fun c => isWord c || c == '.') ++ char '.'
    [wordBoundary ++ exactly "fun" ++ gap ++ optional (typeParameters ++ blanks) ++
      optional receiver ++ group 1 word ++ blanks ++ parameterList]
  | .java =>
    let result := atLeastOne fun c => isWord c || c == '<' || c == '>' || c == '[' || c == ']'
    let thrown := fun c => isWord c || c == '.' || c == ',' || isWhiteSpace c
    [wordBoundary ++ result ++ gap ++ group 1 word ++ blanks ++ parameterList ++ blanks ++
      optional (exactly "throws" ++ gap ++ one thrown ++ fewest thrown) ++ blanks ++ char '{']
  | .python => [wordBoundary ++ exactly "def" ++ gap ++ group 1 word ++ blanks ++ parameterList]
  | .javaScript => [
      wordBoundary ++ exactly "function" ++ optional (char '*') ++ gap ++ group 1 word ++ blanks ++
        parameterList,
      boundFunction ++ optional (exactly "function" ++ blanks) ++ parameterList,
      boundFunction ++ group 2 word ++ blanks ++ exactly "=>"]
  | .swift =>
    [wordBoundary ++ exactly "func" ++ gap ++ group 1 word ++ blanks ++ optional typeParameters ++
      blanks ++ parameterList]

/-- Words that a parenthesis may follow though they name no function. -/
def keywords : List Text :=
  ["if".toList, "else".toList, "for".toList, "while".toList, "do".toList, "switch".toList,
    "when".toList, "catch".toList, "try".toList, "return".toList, "new".toList,
    "synchronized".toList, "guard".toList]

/-- The signature in a match of a header. -/
def ofMatch? (language : Language) (m : Match) : Option Signature := do
  let span ← m.groupSpan? 1
  if keywords.contains span.text then none
  else
    let parameters := Nesting.split true ((m.group? 2).getD [])
    return ⟨span.text, parameters.filterMap (Parameter.ofText? language), span.start.index⟩

/-- A list in the order of positions with one more signature, which comes before those of the same
position. -/
def insert (s : Signature) : List Signature → List Signature
  | [] => [s]
  | other :: rest =>
    if s.position ≤ other.position then s :: other :: rest else other :: insert s rest

theorem insert_of_le {s : Signature} {l : List Signature} (h : ∀ o ∈ l, s.position ≤ o.position) :
    insert s l = s :: l := by
  cases l with
  | nil => rfl
  | cons o l => rw [insert, if_pos (h o (by simp))]

theorem insert_perm (s : Signature) (l : List Signature) : (insert s l).Perm (s :: l) := by
  induction l with
  | nil => rfl
  | cons other l ih =>
    unfold insert
    split
    · rfl
    · exact (ih.cons other).trans (.swap s other l)

theorem foldr_insert_perm (l : List Signature) : (l.foldr insert []).Perm l := by
  induction l with
  | nil => rfl
  | cons s l ih => exact (insert_perm s _).trans (ih.cons s)

theorem mem_foldr_insert {o : Signature} {l : List Signature} : o ∈ l.foldr insert [] ↔ o ∈ l :=
  (foldr_insert_perm l).mem_iff

end Signature

/-- The functions that a text defines, in the order of their headers. -/
def signatures (language : Language) (t : Text) : List Signature :=
  let found := (Signature.headers language).flatMap fun header =>
    (header.findAll t).filterMap (Signature.ofMatch? language)
  found.foldr Signature.insert []

theorem mem_signatures_iff {language : Language} {t : Text} {s : Signature} :
    s ∈ signatures language t ↔ ∃ header ∈ Signature.headers language,
      ∃ m ∈ header.findAll t, Signature.ofMatch? language m = some s := by
  simp [signatures, Signature.mem_foldr_insert]

end DryRun
