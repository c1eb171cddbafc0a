import DryRun.Call
import DryRun.Template

/-!
# Output

The calls by which a snippet prints to the console, and the text that each prints.
-/

namespace DryRun

/-! ### How languages print -/

/-- How a language prints. -/
structure PrintSyntax where
  /-- The start of a call, up to its opening parenthesis.  Group 1 is the name. -/
  call : Pattern
  /-- The names of the calls that do not end the line. -/
  sameLine : List Text
  /-- Whether a call prints several arguments. -/
  several : Bool
  /-- The label of the argument that replaces the blank between arguments. -/
  separatorLabel : Option Text
  /-- The label of the argument that replaces the line feed at the end. -/
  endingLabel : Option Text

open Pattern in
/-- How a language prints. -/
def Language.printing : Language → PrintSyntax
  | .kotlin => {
      call := wordBoundary ++ group 1 (oneOf ["println", "print"]) ++ blanks ++ char '('
      sameLine := ["print".toList]
      several := false
      separatorLabel := none
      endingLabel := none }
  | .java => {
      call := wordBoundary ++ exactly "System" ++ blanks ++ char '.' ++ blanks ++
        oneOf ["out", "err"] ++ blanks ++ char '.' ++ blanks ++
        group 1 (oneOf ["println", "print"]) ++ blanks ++ char '('
      sameLine := ["print".toList]
      several := false
      separatorLabel := none
      endingLabel := none }
  | .python => {
      call := wordBoundary ++ group 1 (exactly "print") ++ blanks ++ char '('
      sameLine := []
      several := true
      separatorLabel := some "sep".toList
      endingLabel := some "end".toList }
  | .javaScript => {
      call := wordBoundary ++ exactly "console" ++ blanks ++ char '.' ++ blanks ++
        group 1 (oneOf ["log", "info", "warn", "error", "debug"]) ++ blanks ++ char '('
      sameLine := []
      several := true
      separatorLabel := none
      endingLabel := none }
  | .swift => {
      call := wordBoundary ++ group 1 (oneOf ["print", "debugPrint"]) ++ blanks ++ char '('
      sameLine := []
      several := true
      separatorLabel := some "separator".toList
      endingLabel := some "terminator".toList }

/-- The markers that a language embeds in its templates, if it has templates. -/
def Language.templates : Language → Option TemplateSyntax
  | .kotlin => some .kotlin
  | .java => none
  | .python => some .python
  | .javaScript => some .javaScript
  | .swift => some .swift

namespace StringLiteral

/-- Whether a literal is a template. -/
def isTemplate (language : Language) (l : StringLiteral) : Bool :=
  match language with
  | .kotlin | .swift => l.quote == '"' && l.marks.isEmpty
  | .javaScript => l.quote == Comment.backtick
  | .python => l.hasMark 'f'
  | .java => false

/-- Whether the escapes of a literal stay as written. -/
def isRaw (language : Language) (l : StringLiteral) : Bool :=
  language == .python && l.hasMark 'r'

end StringLiteral

/-- A template of a language with its markers replaced by their values. -/
def fillTemplate (language : Language) (b : Bindings) (template : Text) : Text :=
  match language.templates with
  | some templates => templates.fill b template
  | none => template

/-! ### Arguments -/

/-- The text that a string literal prints. -/
def StringLiteral.printed (language : Language) (b : Bindings) (l : StringLiteral) : Text :=
  let body := if l.isTemplate language then fillTemplate language b l.body else l.body
  if l.isRaw language then body else resolveEscapes body

/-- The text that an argument prints: that of a string literal, the value of a name, or what an
expression comes to. -/
def printedArgument (language : Language) (b : Bindings) (argument : Text) : Text :=
  match StringLiteral.ofText? argument.trim with
  | some l => l.printed language b
  | none =>
    if argument.trim.isName then
      match b.get? argument.trim with
      | some value => value
      | none => Expression.eval b argument.trim
    else Expression.eval b argument.trim

/-! ### Calls -/

/-- A call that prints. -/
structure PrintCall where
  name : Text
  /-- What stands between its parentheses. -/
  arguments : Text
deriving DecidableEq, Repr

namespace PrintCall

/-- What a call has gathered from its arguments: the texts to print, what stands between them, and
what stands at the end. -/
structure Printout where
  pieces : List Text
  separator : Text
  ending : Text
deriving DecidableEq, Repr

namespace Printout

/-- The text of a printout. -/
def text (p : Printout) : Text := p.separator.intercalate p.pieces ++ p.ending

/-- A printout with one more argument.  A labelled one may set the separator or the ending, and is
not printed itself. -/
def add (language : Language) (b : Bindings) (p : Printout) (argument : Text) : Printout :=
  match Call.labelled? language argument with
  | none => { p with pieces := p.pieces ++ [printedArgument language b argument] }
  | some (label, value) =>
    if some label = language.printing.separatorLabel then
      { p with separator := printedArgument language b value }
    else if some label = language.printing.endingLabel then
      { p with ending := printedArgument language b value }
    else p

end Printout

/-- What stands at the end of a call's text if no argument says otherwise. -/
def defaultEnding (language : Language) (call : PrintCall) : Text :=
  if language.printing.sameLine.contains call.name then [] else ['\n']

/-- The text that a call prints, with its ending. -/
def printed (language : Language) (b : Bindings) (call : PrintCall) : Text :=
  let start : Printout := ⟨[], [' '], call.defaultEnding language⟩
  if language.printing.several then
    ((Nesting.split false call.arguments).foldl (Printout.add language b) start).text
  else if call.arguments.isBlank then start.text
  else { start with pieces := [printedArgument language b call.arguments] : Printout }.text

/-- The call that begins with a match of a call's start, if its argument list is closed. -/
def ofMatch? (m : Match) : Option PrintCall := do
  let name ← m.group? 1
  let (arguments, _) ← Nesting.arguments? m.rest
  return ⟨name, arguments⟩

end PrintCall

/-- The calls that print, in the order of the text. -/
def printCalls (language : Language) (t : Text) : List PrintCall :=
  (language.printing.call.findAll t).filterMap PrintCall.ofMatch?

end DryRun
