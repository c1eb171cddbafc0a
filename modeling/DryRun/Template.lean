import DryRun.Pattern.Search
import DryRun.Expression

/-!
# Templates

Texts with expressions embedded in them.  Each language has a syntax of markers, given as a pattern:
group 1 is what stands between the brackets of a marker, group 2 the name of a marker without
brackets, and a match without groups is an escape, which stays as it is.  Filling in a template
replaces every marker whose expression has a value and copies all else.
-/

namespace DryRun

/-- A syntax of markers. -/
structure TemplateSyntax where
  marker : Pattern

namespace TemplateSyntax

open Pattern

/-- What stands between the brackets of a marker, as group 1. -/
def bracketed (p : Char → Bool) (close : Char) : Pattern := group 1 (many p) ++ char close

/-- A backslash and any character but a line feed. -/
def escape : Pattern := char '\\' ++ one (· != '\n')

/-- `$` and braces. -/
def dollarBraces : Pattern := char '$' ++ char '{' ++ bracketed (· != '}') '}'

/-- `$` and braces, or `$` and a name. -/
def kotlin : TemplateSyntax :=
  ⟨.alt escape (.alt dollarBraces (char '$' ++ group 2 asciiWord))⟩

/-- `$` and braces. -/
def javaScript : TemplateSyntax := ⟨.alt escape dollarBraces⟩

/-- Braces. -/
def python : TemplateSyntax :=
  ⟨char '{' ++ bracketed (fun c => c != '{' && c != '}') '}'⟩

/-- A backslash and parentheses; two backslashes are an escape. -/
def swift : TemplateSyntax :=
  ⟨.alt (char '\\' ++ char '\\') (char '\\' ++ char '(' ++ bracketed (· != ')') ')')⟩

/-- The value of what stands in a marker: that of a name if it is one, else that of an
expression. -/
def value? (b : Bindings) (inner : Text) : Option Text :=
  if inner.trim.isName then b.get? inner.trim else Expression.eval? b inner.trim

/-- What a marker or escape is replaced by: the value in a marker that has one, and otherwise
itself. -/
def resolve (b : Bindings) (m : Match) : Text :=
  match (m.group? 1 <|> m.group? 2).bind (value? b) with
  | some value => value
  | none => m.text

/-- A template with its markers replaced by their values. -/
def fill (s : TemplateSyntax) (b : Bindings) (template : Text) : Text :=
  s.marker.replaceAll (resolve b) template

end TemplateSyntax

end DryRun
