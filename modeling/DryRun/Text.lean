import DryRun.Unicode.Class

/-!
# Text

A text is a list of characters.  Positions in a text are counted in bytes of its UTF-8 form;
`byteLength` is that measure, and it is additive.  The other operations trim, split and classify.
-/

namespace DryRun

open Unicode

/-- Text as the scanners read it, one character at a time. -/
abbrev Text := List Char

namespace Text

/-! ### Positions -/

/-- The number of bytes of a text in UTF-8. -/
def byteLength : Text → Nat
  | [] => 0
  | c :: rest => c.utf8Size + byteLength rest

@[simp] theorem byteLength_append (s t : Text) :
    byteLength (s ++ t) = byteLength s + byteLength t := by
  induction s with
  | nil => simp [byteLength]
  | cons c s ih => simp [byteLength, ih, Nat.add_assoc]

/-- What follows the first `n` bytes, if that position exists and lies between two characters. -/
def dropBytes? : Nat → Text → Option Text
  | 0, t => some t
  | _ + 1, [] => none
  | n + 1, c :: rest => if c.utf8Size ≤ n + 1 then dropBytes? (n + 1 - c.utf8Size) rest else none

/-! ### White space -/

/-- The text without the white space it begins with. -/
def trimStart (t : Text) : Text := t.dropWhile isWhiteSpace

/-- The text without the white space it ends with. -/
def trimEnd (t : Text) : Text := (trimStart t.reverse).reverse

/-- The text without white space at either end. -/
def trim (t : Text) : Text := trimEnd (trimStart t)

/-- Whether a text is empty or all white space. -/
def isBlank (t : Text) : Bool := t.all isWhiteSpace

/-- The words of a text, that is, its longest pieces without white space.  `word` is the current
piece, reversed. -/
def wordsFrom (word : Text) : Text → List Text
  | [] => if word.isEmpty then [] else [word.reverse]
  | c :: rest =>
    if isWhiteSpace c then
      if word.isEmpty then wordsFrom [] rest else word.reverse :: wordsFrom [] rest
    else wordsFrom (c :: word) rest

/-- The longest pieces without white space, in order. -/
def words (t : Text) : List Text := wordsFrom [] t

/-! ### Splitting -/

/-- What stands before the first `mark`: the whole text if there is none. -/
def before (mark : Char) (t : Text) : Text := t.takeWhile (· != mark)

/-- What stands before and after the first `mark`. -/
def splitOnce (mark : Char) : Text → Option (Text × Text)
  | [] => none
  | c :: rest =>
    if c = mark then some ([], rest)
    else (splitOnce mark rest).map fun (left, right) => (c :: left, right)

/-- The pieces of a text between the `mark`s in it, at least one. -/
def splitOn (mark : Char) : Text → List Text
  | [] => [[]]
  | c :: rest =>
    if c = mark then [] :: splitOn mark rest
    else (splitOn mark rest).modifyHead (c :: ·)

/-- The lines of a text, without their line breaks.  A break at the very end opens no further line;
a carriage return stays with its line. -/
def lines : Text → List Text
  | [] => []
  | c :: rest =>
    if c = '\n' then [] :: lines rest
    else
      match lines rest with
      | [] => [[c]]
      | line :: more => (c :: line) :: more

/-- A text without `ends` at both sides, if it has one at each. -/
def unwrap? (ends : Char) : Text → Option Text
  | [] => none
  | c :: rest => if c = ends && rest.getLast? = some ends then some rest.dropLast else none

/-! ### Classes -/

/-- Whether a text is a name: one or more letters, numeric characters and underscores. -/
def isName (t : Text) : Bool :=
  !t.isEmpty && t.all fun c => isAlphanumeric c || c == '_'

/-- The text with its ASCII capitals made small. -/
def toLower (t : Text) : Text := t.map Char.toLower

end Text

end DryRun
