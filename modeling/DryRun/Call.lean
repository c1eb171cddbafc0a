import DryRun.Bindings
import DryRun.Signature
import DryRun.StringLiteral

/-!
# Calls

A call of a function that the snippet defines gives the function's parameters the values of its
arguments, so that the function's body can refer to them.  Calls count in the order of the text, and
a later call replaces what an earlier one gave.
-/

namespace DryRun

/-- The character between the label and the value of a labelled argument, if a language has such
arguments. -/
def Language.labelMark : Language → Option Char
  | .kotlin => some '='
  | .python => some '='
  | .swift => some ':'
  | .java => none
  | .javaScript => none

namespace Call

/-! ### Arguments -/

/-- The label and the value of a labelled argument.  A second `=` makes a comparison of it. -/
def labelled? (language : Language) (argument : Text) : Option (Text × Text) := do
  let mark ← language.labelMark
  let (label, value) ← argument.splitOnce mark
  if label.trim.isName ∧ value.head? ≠ some '=' then some (label.trim, value.trim) else none

/-- The value of an argument: the body of a plain string literal, a numeral, or the value of a
name. -/
def value? (b : Bindings) (t : Text) : Option Text :=
  match StringLiteral.ofText? t with
  | some l => l.plainBody?
  | none => if t.isNumeral then some t else b.get? t

/-- The parameter that an argument in some position is meant for, and the text of its value.  A
label that a parameter has decides; any other argument goes by its position. -/
def target? (language : Language) (s : Signature) (argument : Text) (position : Nat) :
    Option (Parameter × Text) :=
  let labelled := labelled? language argument
  let byLabel := labelled.bind fun (label, value) =>
    (s.parameters.find? (·.label == some label)).map fun p => (p, value)
  let value := (labelled.map Prod.snd).getD argument
  byLabel <|> s.parameters[position]?.map fun p => (p, value)

/-- The bindings after one argument. -/
def applyArgument (language : Language) (s : Signature) (b : Bindings) (argument : Text)
    (position : Nat) : Bindings :=
  match target? language s argument position with
  | none => b
  | some (p, text) =>
    match value? b text with
    | some value => b.insert p.name value
    | none => b

/-- The bindings after the arguments of one call, from left to right. -/
def applyArguments (language : Language) (s : Signature) (b : Bindings) (arguments : Text) :
    Bindings :=
  (Nesting.split false arguments).zipIdx.foldl
    (fun b (argument, position) => applyArgument language s b argument position) b

/-! ### Call sites -/

open Pattern in
/-- A name and an opening parenthesis.  Group 1 is the name. -/
def site : Pattern := wordBoundary ++ group 1 asciiWord ++ blanks ++ char '('

/-- Whether the text before a place, nearest character first, ends in a dot and white space. -/
def afterDot (seen : Text) : Bool := (Text.trimStart seen).head? == some '.'

/-- The signature of the function that a call site calls.  A header is no call, and neither is a
name after a dot. -/
def callee? (functions : List Signature) (m : Match) : Option Signature := do
  let span ← m.groupSpan? 1
  if functions.any fun s => s.position == span.start.index && s.name == span.text then none
  else if afterDot m.seen then none
  else functions.find? (·.name == span.text)

/-- The bindings after a possible call. -/
def applySite (language : Language) (functions : List Signature) (b : Bindings) (m : Match) :
    Bindings :=
  match callee? functions m, Nesting.arguments? m.rest with
  | some s, some (arguments, _) => applyArguments language s b arguments
  | _, _ => b

end Call

namespace Bindings

/-- The bindings after all calls in a text. -/
def afterCalls (language : Language) (b : Bindings) (t : Text) : Bindings :=
  let functions := signatures language t
  if functions.isEmpty then b
  else (Call.site.findAll t).foldl (Call.applySite language functions) b

end Bindings

end DryRun
