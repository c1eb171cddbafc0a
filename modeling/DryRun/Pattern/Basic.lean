import DryRun.Pattern.Cursor

/-!
# Patterns

A `Pattern` describes a piece of text by character classes, sequence, choice and repetition of a
class, with numbered groups.  Its meaning at a place is the list of all ways to match from there, in
order of preference: earlier alternatives first, longer repetitions first.  A match is then the head
of that list.
-/

namespace DryRun

/-- A description of a piece of text. -/
inductive Pattern where
  /-- Matches nothing, successfully. -/
  | empty
  /-- One character of a class. -/
  | one (p : Char → Bool)
  /-- Any number of characters of a class, as many as possible first. -/
  | many (p : Char → Bool)
  /-- Any number of characters of a class, as few as possible first. -/
  | fewest (p : Char → Bool)
  /-- One pattern and then another. -/
  | seq (first second : Pattern)
  /-- One pattern or, failing that, another. -/
  | alt (first second : Pattern)
  /-- A pattern whose stretch of text is remembered under a number. -/
  | group (number : Nat) (inner : Pattern)
  /-- The edge of a word. -/
  | wordBoundary
  /-- The start of a line. -/
  | lineStart

namespace Pattern

instance : Append Pattern := ⟨seq⟩

/-- At least one character of a class. -/
def atLeastOne (p : Char → Bool) : Pattern := one p ++ many p

/-- A given character. -/
def char (c : Char) : Pattern := one (· == c)

/-- A given text. -/
def exactly (s : String) : Pattern := s.toList.foldr (fun c rest => char c ++ rest) empty

/-- The first of several texts that fits. -/
def oneOf : List String → Pattern
  | [] => empty
  | [s] => exactly s
  | s :: more => alt (exactly s) (oneOf more)

/-- A pattern, or nothing if it does not fit. -/
def optional (p : Pattern) : Pattern := alt p empty

/-- Any amount of white space. -/
def blanks : Pattern := many Unicode.isWhiteSpace

/-- At least one white space character. -/
def gap : Pattern := atLeastOne Unicode.isWhiteSpace

/-- One or more word characters. -/
def word : Pattern := atLeastOne Unicode.isWord

/-- A word that begins with an ASCII letter or `_`. -/
def asciiWord : Pattern := one (fun c => c.isAlpha || c == '_') ++ many Unicode.isWord

/-! ### Matching at a place -/

/-- How far matching has come: a place, and the groups remembered so far, latest first. -/
structure Progress where
  cursor : Cursor
  groups : List (Nat × Span)

/-- All ways to match a pattern from where matching has come, in order of preference. -/
def outcomes : Pattern → Progress → List Progress
  | empty, s => [s]
  | one p, s => (s.cursor.advance? p).toList.map fun c => { s with cursor := c }
  | many p, s => (s.cursor.stops p).reverse.map fun c => { s with cursor := c }
  | fewest p, s => (s.cursor.stops p).map fun c => { s with cursor := c }
  | seq p q, s => (outcomes p s).flatMap (outcomes q)
  | alt p q, s => outcomes p s ++ outcomes q s
  | group n p, s =>
    (outcomes p s).map fun t => { t with groups := (n, ⟨s.cursor, t.cursor⟩) :: t.groups }
  | wordBoundary, s => if s.cursor.atWordBoundary then [s] else []
  | lineStart, s => if s.cursor.atLineStart then [s] else []

@[simp] theorem outcomes_append (p q : Pattern) (s : Progress) :
    outcomes (p ++ q) s = (outcomes p s).flatMap (outcomes q) := rfl

end Pattern

end DryRun
