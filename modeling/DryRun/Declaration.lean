import DryRun.Language
import DryRun.Bindings
import DryRun.Pattern.Search

/-!
# Declarations

The names that a snippet declares with a literal value.  Three passes go over the whole text: string
literals, of which a later one replaces an earlier one of the same name; then numerals and then
truth values, which only names without a value take.  A declaration of any other form binds
nothing.
-/

namespace DryRun

/-- How a language declares a name with a literal value.  In each pattern group 1 is the name and
group 2 the value; in `strings` a value in single quotes is group 3. -/
structure DeclarationSyntax where
  strings : Pattern
  numbers : Pattern
  truths : Pattern

namespace DeclarationSyntax

open Pattern Unicode

/-! ### What stands before the value -/

/-- One of several keywords, a name and `=`. -/
def keywordOpening (keywords : List String) : Pattern :=
  wordBoundary ++ oneOf keywords ++ gap ++ group 1 word ++ blanks ++ char '=' ++ blanks

/-- One of several keywords, a name, possibly a type behind a colon, and `=`. -/
def typedOpening (keywords : List String) : Pattern :=
  let typeName := atLeastOne fun c => isWord c || c == '.' || c == '<' || c == '>' || c == '?'
  wordBoundary ++ oneOf keywords ++ gap ++ group 1 word ++
    optional (blanks ++ char ':' ++ blanks ++ typeName) ++ blanks ++ char '=' ++ blanks

/-- A name and `=` at the start of a line. -/
def lineOpening : Pattern :=
  let indent := many fun c => c == ' ' || c == '\t'
  lineStart ++ indent ++ group 1 word ++ indent ++ char '=' ++ indent

/-! ### The value -/

/-- What stands between two quotes on one line, remembered under a number. -/
def quoted (quote : Char) (number : Nat) : Pattern :=
  char quote ++ group number (many fun c => c != quote && c != '\n') ++ char quote

/-- A text in double quotes or, with `single`, in single ones. -/
def stringValue (single : Bool) : Pattern :=
  if single then .alt (quoted '"' 2) (quoted '\'' 3) else quoted '"' 2

/-- A possible sign, digits, and possibly a point with more digits. -/
def numberValue : Pattern :=
  let digits := atLeastOne isDecimalDigit
  group 2 (optional (char '-') ++ digits ++ optional (char '.' ++ digits))

/-- One of the words for truth and falsehood. -/
def truthValue (words : List String) : Pattern := group 2 (oneOf words) ++ wordBoundary

/-- The syntax in which every kind of value has the same opening. -/
def uniform (opening : Pattern) (single : Bool) (truthWords : List String) :
    DeclarationSyntax where
  strings := opening ++ stringValue single
  numbers := opening ++ numberValue
  truths := opening ++ truthValue truthWords

end DeclarationSyntax

open DeclarationSyntax in
/-- How a language declares names. -/
def Language.declarations : Language → DeclarationSyntax
  | .kotlin => uniform (typedOpening ["val", "var"]) false ["true", "false"]
  | .java => {
      strings := keywordOpening ["String", "var"] ++ stringValue false
      numbers :=
        keywordOpening ["int", "long", "short", "byte", "double", "float", "var"] ++ numberValue
      truths := keywordOpening ["boolean", "var"] ++ truthValue ["true", "false"] }
  | .python => uniform lineOpening true ["True", "False"]
  | .javaScript => uniform (keywordOpening ["const", "let", "var"]) true ["true", "false"]
  | .swift => uniform (typedOpening ["let", "var"]) false ["true", "false"]

namespace Declaration

/-- The name and the value in a match of a declaration. -/
def ofMatch? (m : Match) : Option (Text × Text) := do
  let name ← m.group? 1
  let value ← m.group? 2 <|> m.group? 3
  return (name, value)

/-- Whether a text goes on, after blanks and tabs, with the sign of a calculation. -/
def goesOnCalculating (t : Text) : Bool :=
  (t.dropWhile fun c => c == ' ' || c == '\t').head?.any fun c =>
    c == '+' || c == '-' || c == '*' || c == '/'

/-- The declarations of names with string literals. -/
def strings (language : Language) (t : Text) : List (Text × Text) :=
  (language.declarations.strings.findAll t).filterMap ofMatch?

/-- The declarations of names with numerals.  A numeral that begins a calculation is not the value
of a name. -/
def numbers (language : Language) (t : Text) : List (Text × Text) :=
  ((language.declarations.numbers.findAll t).filter fun m => !goesOnCalculating m.rest).filterMap
    ofMatch?

/-- The declarations of names with truth values, in small letters. -/
def truths (language : Language) (t : Text) : List (Text × Text) :=
  ((language.declarations.truths.findAll t).filterMap ofMatch?).map fun (name, value) =>
    (name, value.toLower)

end Declaration

namespace Bindings

/-- The bindings after several more, of which each counts only if its name has no value yet. -/
def insertAllNew (b : Bindings) (l : List (Text × Text)) : Bindings :=
  l.foldl (fun b (name, value) => b.insertIfNew name value) b

end Bindings

/-- The names that a text declares, with their values. -/
def declared (language : Language) (t : Text) : Bindings :=
  ((Bindings.ofList (Declaration.strings language t)).insertAllNew
    (Declaration.numbers language t)).insertAllNew (Declaration.truths language t)

end DryRun
