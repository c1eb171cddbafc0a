import DryRun.Text

/-!
# Places in a text

A `Cursor` is a place in a text: the characters already read, nearest first, and those still to
come.  A `Span` is a stretch between two places of one text.
-/

namespace DryRun

/-- A place in a text. -/
structure Cursor where
  /-- What stands before the place, nearest character first. -/
  seen : Text
  /-- What stands after the place. -/
  rest : Text
  /-- How many characters stand before the place. -/
  index : Nat
  index_eq : index = seen.length
deriving DecidableEq, Repr

namespace Cursor

theorem index_succ {n : Nat} {seen : Text} (h : n = seen.length) (x : Char) :
    n + 1 = (x :: seen).length := by
  rw [h, List.length_cons]

/-- The place between two texts, of which the one before is reversed. -/
def between (seen rest : Text) : Cursor := ⟨seen, rest, seen.length, rfl⟩

/-- A place is known by what stands before it and after it. -/
theorem eq_between (c : Cursor) : c = between c.seen c.rest := by
  obtain ⟨seen, rest, index, rfl⟩ := c
  rfl

/-- The number of bytes before a place. -/
def offset (c : Cursor) : Nat := c.seen.byteLength

/-- The next place, if the character to come satisfies `p`. -/
def advance? (p : Char → Bool) : Cursor → Option Cursor
  | ⟨_, [], _, _⟩ => none
  | ⟨seen, x :: rest, n, h⟩ => if p x then some ⟨x :: seen, rest, n + 1, index_succ h x⟩ else none

/-- The places reached by reading any number of characters that satisfy `p`, nearest first, from the
place after `seen`. -/
def stopsFrom (p : Char → Bool) (seen : Text) (n : Nat) (h : n = seen.length) : Text → List Cursor
  | [] => [⟨seen, [], n, h⟩]
  | x :: rest =>
    ⟨seen, x :: rest, n, h⟩ ::
      if p x then stopsFrom p (x :: seen) (n + 1) (index_succ h x) rest else []

/-- The places reached by reading any number of characters that satisfy `p`, nearest first. -/
def stops (p : Char → Bool) (c : Cursor) : List Cursor :=
  stopsFrom p c.seen c.index c.index_eq c.rest

/-- Whether a word character stands on exactly one side. -/
def atWordBoundary (c : Cursor) : Bool :=
  c.seen.head?.any Unicode.isWord != c.rest.head?.any Unicode.isWord

/-- Whether a line begins here: at the start of the text or after a line feed. -/
def atLineStart (c : Cursor) : Bool :=
  c.seen.head?.all (· == '\n')

end Cursor

/-- A stretch of a text, from one place to a later one. -/
structure Span where
  start : Cursor
  stop : Cursor
deriving DecidableEq, Repr

namespace Span

/-- The number of characters of a stretch. -/
def length (s : Span) : Nat := s.stop.index - s.start.index

/-- The characters of a stretch. -/
def text (s : Span) : Text := s.start.rest.take s.length

end Span

end DryRun
