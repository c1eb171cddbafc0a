import DryRun.Bindings
import DryRun.StringLiteral

/-!
# Expressions

What a short expression comes to, given the bindings.  It may be a calculation with two numbers, a
comparison of two values, or a joining of texts with `+`; the first of the three that has a result
counts.  There is no precedence and no nesting: an expression is cut at its first operator, and both
sides must stand for themselves.
-/

namespace DryRun

namespace Expression

/-! ### Cutting at an operator -/

/-- The text to come cut at the first place where `operator?` finds an operator with something after
it.  `left` is the text before, nearest character first. -/
def cutFrom {α : Type} (operator? : Text → Option (α × Text)) (left : Text) :
    Text → Option (Text × α × Text)
  | [] => none
  | c :: rest =>
    match operator? (c :: rest) with
    | some (op, right) =>
      if left.isBlank || right.isBlank then cutFrom operator? (c :: left) rest
      else some (Text.trimEnd left.reverse, op, right.trimStart)
    | none => cutFrom operator? (c :: left) rest

/-- A text cut at its first operator, which does not stand at the very beginning.  Neither side is
blank, and both are trimmed where they meet the operator. -/
def cut {α : Type} (operator? : Text → Option (α × Text)) : Text → Option (Text × α × Text)
  | [] => none
  | c :: rest => cutFrom operator? [c] rest

/-! ### Calculations -/

/-- The four operations on numbers. -/
inductive Operation where
  | add | sub | mul | div
deriving DecidableEq, Repr

namespace Operation

/-- The operation whose sign begins a text, and the text after it. -/
def ofText? : Text → Option (Operation × Text)
  | '+' :: rest => some (add, rest)
  | '-' :: rest => some (sub, rest)
  | '*' :: rest => some (mul, rest)
  | '/' :: rest => some (div, rest)
  | _ => none

/-- The result of an operation.  Division by zero is infinity, whatever is divided. -/
def apply : Operation → Binary64 → Binary64 → Binary64
  | add, x, y => x + y
  | sub, x, y => x - y
  | mul, x, y => x * y
  | div, x, y => if y.isZero then .infinite false else x / y

end Operation

/-- The number that a numeral, or a name bound to one, stands for. -/
def operand? (b : Bindings) (t : Text) : Option Binary64 := t.number? <|> b.number? t

/-- The result of a calculation with two numbers. -/
def calculate? (b : Bindings) (t : Text) : Option Text := do
  let (left, op, right) ← cut Operation.ofText? t
  let x ← operand? b left
  let y ← operand? b right
  return (op.apply x y).text

/-! ### Comparisons -/

/-- Whether a text begins with a sign of equality (`true`) or of inequality (`false`), and the text
after it. -/
def equalitySign? : Text → Option (Bool × Text)
  | '=' :: '=' :: '=' :: rest => some (true, rest)
  | '!' :: '=' :: '=' :: rest => some (false, rest)
  | '=' :: '=' :: rest => some (true, rest)
  | '!' :: '=' :: rest => some (false, rest)
  | _ => none

/-- What one side of a comparison stands for: the body of a plain literal, the value of a name, and
otherwise itself. -/
def sideValue (b : Bindings) (t : Text) : Text :=
  match (StringLiteral.ofText? t).bind StringLiteral.plainBody? with
  | some body => body
  | none => (b.get? t).getD t

/-- The result of a comparison. -/
def compare? (b : Bindings) (t : Text) : Option Text := do
  let (left, same, right) ← cut equalitySign? t
  return if (sideValue b left == sideValue b right) == same then "true".toList else "false".toList

/-! ### Joining -/

/-- The pieces of the text to come between the `+` signs outside quotes.  `quote` is the quote that
is open; backslashes mean nothing here. -/
def partsFrom (quote : Option Char) : Text → List Text
  | [] => [[]]
  | c :: rest =>
    match quote with
    | some q => (partsFrom (if c = q then none else some q) rest).modifyHead (c :: ·)
    | none =>
      if c = '"' ∨ c = '\'' then (partsFrom (some c) rest).modifyHead (c :: ·)
      else if c = '+' then [] :: partsFrom none rest
      else (partsFrom none rest).modifyHead (c :: ·)

/-- What a part of a joining stands for: what stands between equal quotes, the value of a name, or a
numeral as written. -/
def partValue? (b : Bindings) (t : Text) : Option Text :=
  t.unwrap? '"' <|> t.unwrap? '\'' <|> b.get? t <|> if t.isNumeral then some t else none

/-- The result of joining texts with `+`.  All parts must stand for something. -/
def join? (b : Bindings) (t : Text) : Option Text :=
  if t.contains '+' then
    ((partsFrom none t).mapM fun part => partValue? b part.trim).map List.flatten
  else none

/-! ### Results -/

/-- What an expression comes to, if it can be told. -/
def eval? (b : Bindings) (t : Text) : Option Text :=
  calculate? b t.trim <|> compare? b t.trim <|> join? b t.trim

/-- What an expression comes to, or else the expression itself. -/
def eval (b : Bindings) (t : Text) : Text := (eval? b t).getD t.trim

end Expression

end DryRun
