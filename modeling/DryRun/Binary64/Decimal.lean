import DryRun.Binary64.Basic
import DryRun.Text

/-!
# Decimal text of numbers

A whole number is written with all its digits.  Any other number is written with the fewest decimal
places that read back as the same value, and never with an exponent.
-/

namespace DryRun

/-- A power of ten. -/
def tenTo (places : Nat) : Nat := Nat.pow 10 places

namespace Magnitude

/-! ### The decimals that read back -/

/-- Four times the distance, in units, from a magnitude to the middle between it and the next
larger one. -/
def roomAbove (a : Magnitude) : Nat := 2 <<< a.exponent

/-- Four times the distance, in units, from a magnitude to the middle between it and the next
smaller one, which is nearer where the mantissa is least. -/
def roomBelow (a : Magnitude) : Nat :=
  if a.mantissa = 1 <<< 52 ∧ a.exponent ≠ 0 then 1 <<< a.exponent else 2 <<< a.exponent

/-- Whether `digits / 10 ^ places` lies so close to a magnitude that it reads back as it.  The
middle between two neighbours belongs to the one with the even mantissa. -/
def readsBack (a : Magnitude) (digits places : Nat) : Bool :=
  let x := 4 * digits * unitsPerOne
  let lo := (4 * a.units - a.roomBelow) * tenTo places
  let hi := (4 * a.units + a.roomAbove) * tenTo places
  if a.mantissa % 2 = 0 then lo ≤ x && x ≤ hi else lo < x && x < hi

/-- The digits of the decimal with `places` places that reads back as `a`: of its two neighbours the
nearer one if that does, else the other one.  A tie goes to the larger. -/
def digitsAt? (a : Magnitude) (places : Nat) : Option Nat :=
  let scaled := a.units * tenTo places
  let down := scaled / unitsPerOne
  let order :=
    if 2 * (scaled % unitsPerOne) < unitsPerOne then [down, down + 1] else [down + 1, down]
  order.find? (a.readsBack · places)

/-- The fewest decimal places, from `places` on, at which a decimal reads back, and its digits.
`more` bounds the search; 1074 places are enough for any magnitude. -/
def shortestFrom (a : Magnitude) (places : Nat) : Nat → Nat × Nat
  | 0 => (a.units * tenTo places / unitsPerOne, places)
  | more + 1 =>
    match a.digitsAt? places with
    | some digits => (digits, places)
    | none => shortestFrom a (places + 1) more

/-! ### Text -/

/-- A decimal with the point before its last `places` digits. -/
def decimalText (digits places : Nat) : Text :=
  let fraction := Nat.toDigits 10 (digits % tenTo places)
  Nat.toDigits 10 (digits / tenTo places) ++
    '.' :: (List.replicate (places - fraction.length) '0' ++ fraction)

/-- A magnitude in decimal. -/
def text (a : Magnitude) : Text :=
  if a.units % unitsPerOne = 0 then Nat.toDigits 10 (a.units / unitsPerOne)
  else
    let (digits, places) := a.shortestFrom 1 1073
    decimalText digits places

end Magnitude

namespace Binary64

/-- A value in decimal.  A zero has no sign. -/
def text : Binary64 → Text
  | nan => "NaN".toList
  | infinite false => "Infinity".toList
  | infinite true => "-Infinity".toList
  | finite s a => if s ∧ a.units ≠ 0 then '-' :: a.text else a.text

end Binary64

end DryRun
