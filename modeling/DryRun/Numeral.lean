import DryRun.Binary64.Decimal

/-!
# Numerals

A numeral is an optional `-`, ASCII digits, and optionally a point with more digits.  Nothing else
is one: no exponent, no suffix, no digit separator, no bare point.
-/

namespace DryRun

/-- The parts of a numeral. -/
structure Numeral where
  negative : Bool
  /-- The digits before the point. -/
  whole : Text
  /-- The digits after the point; none if there is no point. -/
  fraction : Text
deriving DecidableEq, Repr

namespace Numeral

/-- One or more ASCII digits. -/
def isDigits (t : Text) : Bool := !t.isEmpty && t.all Char.isDigit

/-- The parts of a text that is a numeral without a sign. -/
def unsigned? (negative : Bool) (t : Text) : Option Numeral :=
  match t.splitOnce '.' with
  | none => if isDigits t then some ⟨negative, t, []⟩ else none
  | some (whole, fraction) =>
    if isDigits whole && isDigits fraction then some ⟨negative, whole, fraction⟩ else none

/-- The parts of a text that is a numeral. -/
def ofText? : Text → Option Numeral
  | '-' :: t => unsigned? true t
  | t => unsigned? false t

/-- The number nearest to a numeral. -/
def value (n : Numeral) : Binary64 :=
  .nearest n.negative (Nat.ofDigitChars 10 (n.whole ++ n.fraction) 0 * Magnitude.unitsPerOne)
    (tenTo n.fraction.length)

end Numeral

namespace Text

/-- Whether a text is a numeral. -/
def isNumeral (t : Text) : Bool := (Numeral.ofText? t).isSome

/-- The number that a numeral stands for. -/
def number? (t : Text) : Option Binary64 := (Numeral.ofText? t).map Numeral.value

end Text

end DryRun
