import DryRun.Unicode.Additions
import DryRun.Unicode.Alphabetic
import DryRun.Unicode.Mark
import DryRun.Unicode.Number

/-!
# Character classes

White space, digits, letters and word characters as Unicode defines them.  An ASCII character is
classified directly; the tables decide the rest.  Word characters and digits are those of Unicode 16, letters
and numeric characters those of Unicode 17; so a letter that came in with Unicode 17 is alphanumeric
but no word character.
-/

namespace DryRun.Unicode

/-- Whether `n` lies in one of the closed ranges, which stand in increasing order. -/
def inRanges (n : Nat) : List (Nat × Nat) → Bool
  | [] => false
  | (lo, hi) :: rest => if n < lo then false else n ≤ hi || inRanges n rest

/-- Whether `c` lies beyond ASCII and in one of the ranges. -/
def beyondAscii (ranges : List (Nat × Nat)) (c : Char) : Bool :=
  128 ≤ c.toNat && inRanges c.toNat ranges

/-- White space from U+0080 on. -/
def whiteSpace : List (Nat × Nat) := [
  (0x85, 0x85), (0xA0, 0xA0), (0x1680, 0x1680), (0x2000, 0x200A), (0x2028, 0x2029),
  (0x202F, 0x202F), (0x205F, 0x205F), (0x3000, 0x3000)]

/-- Connector punctuation from U+0080 on. -/
def connectorPunctuation : List (Nat × Nat) := [
  (0x203F, 0x2040), (0x2054, 0x2054), (0xFE33, 0xFE34), (0xFE4D, 0xFE4F), (0xFF3F, 0xFF3F)]

/-- The zero-width non-joiner and joiner. -/
def joinControl : List (Nat × Nat) := [(0x200C, 0x200D)]

/-- White space: the blank, tab to carriage return, and the property White_Space beyond ASCII. -/
def isWhiteSpace (c : Char) : Bool :=
  c == ' ' || ('\t' ≤ c && c ≤ '\r') || beyondAscii whiteSpace c

/-- Decimal digits of every script, by Unicode 16. -/
def isDecimalDigit (c : Char) : Bool :=
  c.isDigit || beyondAscii decimalNumber c

/-- Letters of every script, by the property Alphabetic of Unicode 17. -/
def isAlphabetic (c : Char) : Bool :=
  c.isAlpha || beyondAscii alphabetic c || beyondAscii addedAlphabetic c

/-- Characters with a numeric value in Unicode 17: digits, letter numbers and other numbers. -/
def isNumeric (c : Char) : Bool :=
  isDecimalDigit c || beyondAscii letterNumber c || beyondAscii otherNumber c ||
    beyondAscii addedNumeric c

/-- A letter or a numeric character. -/
def isAlphanumeric (c : Char) : Bool :=
  isAlphabetic c || isNumeric c

/-- Word characters of Unicode 16: letters, marks, decimal digits, connectors such as `_`, and the
joiners.  Unlike `isAlphanumeric` this takes marks and leaves out superscripts and fractions. -/
def isWord (c : Char) : Bool :=
  c.isAlphanum || c == '_' || beyondAscii alphabetic c || beyondAscii mark c ||
    beyondAscii decimalNumber c || beyondAscii connectorPunctuation c || beyondAscii joinControl c

end DryRun.Unicode
