/-!
# Binary floating-point numbers

The values of the 64-bit binary format: a sign with a `Magnitude`, the infinities, and one NaN.  All
finite values are whole multiples of the least positive one, so a magnitude is a natural number of
such *units*, and rounding to the format is division of natural numbers.
-/

namespace DryRun

/-- The size of a finite value: `mantissa * 2 ^ exponent` units of `2 ^ -1074`, with at most 53 bits
in the mantissa and all of them in use above the least exponent. -/
structure Magnitude where
  mantissa : Nat
  exponent : Nat
  mantissa_lt : mantissa < 1 <<< 53
  exponent_le : exponent ≤ 2045
  normal : exponent = 0 ∨ 1 <<< 52 ≤ mantissa
deriving DecidableEq

namespace Magnitude

/-- The number of units of a magnitude. -/
def units (a : Magnitude) : Nat := a.mantissa <<< a.exponent

/-- The number of units of the number one. -/
def unitsPerOne : Nat := 1 <<< 1074

/-- No size at all. -/
def zero : Magnitude := ⟨0, 0, by decide, by decide, .inl rfl⟩

end Magnitude

/-- A value of the 64-bit binary format. -/
inductive Binary64 where
  | nan
  | infinite (negative : Bool)
  | finite (negative : Bool) (magnitude : Magnitude)
deriving DecidableEq

namespace Binary64

/-! ### Rounding -/

/-- `a / b` rounded to the nearest whole number, a half going to the even neighbour. -/
def roundDiv (a b : Nat) : Nat :=
  let r := 2 * (a % b)
  if r < b ∨ r = b ∧ a / b % 2 = 0 then a / b else a / b + 1

theorem le_roundDiv (a b : Nat) : a / b ≤ roundDiv a b := by
  unfold roundDiv
  dsimp only
  split <;> omega

/-- The exponent at which a number of units fits 53 bits: the least one that does. -/
def exponentFor (n : Nat) : Nat := n.log2 - 52

theorem exponentFor_normal (num den : Nat) : exponentFor (num / den) = 0 ∨
    1 <<< 52 ≤ num / (den <<< exponentFor (num / den)) := by
  unfold exponentFor
  by_cases h : (num / den).log2 ≤ 52
  · exact .inl (by omega)
  · refine .inr ?_
    have hn : num / den ≠ 0 := fun h0 => h (by rw [h0]; decide)
    have hlog := Nat.log2_self_le hn
    rw [Nat.shiftLeft_eq den, ← Nat.div_div_eq_div_mul, Nat.le_div_iff_mul_le (Nat.two_pow_pos _),
      Nat.shiftLeft_eq, Nat.one_mul, ← Nat.pow_add]
    rwa [show 52 + ((num / den).log2 - 52) = (num / den).log2 by omega]

/-- The value nearest to `num / den` units, a tie going to the even mantissa.  What would need a
larger exponent than the format has is infinite. -/
def nearest (negative : Bool) (num den : Nat) : Binary64 :=
  let e := exponentFor (num / den)
  let m := roundDiv num (den <<< e)
  if hm : m < 1 <<< 53 then
    if he : e ≤ 2045 then
      .finite negative ⟨m, e, hm, he, (exponentFor_normal num den).imp_right fun h =>
        Nat.le_trans h (le_roundDiv _ _)⟩
    else .infinite negative
  else if he : e + 1 ≤ 2045 then
    .finite negative ⟨1 <<< 52, e + 1, by decide, he, .inr (Nat.le_refl _)⟩
  else .infinite negative

/-! ### Arithmetic -/

/-- The value with the other sign. -/
def neg : Binary64 → Binary64
  | nan => nan
  | infinite s => infinite !s
  | finite s a => finite (!s) a

/-- The sum.  Opposite infinities have none, and a sum of opposite values is a positive zero. -/
def add : Binary64 → Binary64 → Binary64
  | nan, _ => nan
  | _, nan => nan
  | infinite s, infinite t => if s = t then infinite s else nan
  | infinite s, finite _ _ => infinite s
  | finite _ _, infinite t => infinite t
  | finite s a, finite t b =>
    if s = t then nearest s (a.units + b.units) 1
    else if a.units = b.units then finite false .zero
    else if b.units < a.units then nearest s (a.units - b.units) 1
    else nearest t (b.units - a.units) 1

/-- The difference. -/
def sub (x y : Binary64) : Binary64 := add x (neg y)

/-- The product.  Zero times an infinity has none. -/
def mul : Binary64 → Binary64 → Binary64
  | nan, _ => nan
  | _, nan => nan
  | infinite s, infinite t => infinite (s != t)
  | infinite s, finite t b => if b.units = 0 then nan else infinite (s != t)
  | finite s a, infinite t => if a.units = 0 then nan else infinite (s != t)
  | finite s a, finite t b => nearest (s != t) (a.units * b.units) Magnitude.unitsPerOne

/-- The quotient.  Two infinities have none, and neither have two zeros. -/
def div : Binary64 → Binary64 → Binary64
  | nan, _ => nan
  | _, nan => nan
  | infinite _, infinite _ => nan
  | infinite s, finite t _ => infinite (s != t)
  | finite s _, infinite t => finite (s != t) .zero
  | finite s a, finite t b =>
    if b.units = 0 then if a.units = 0 then nan else infinite (s != t)
    else nearest (s != t) (a.units * Magnitude.unitsPerOne) b.units

instance : Neg Binary64 := ⟨neg⟩
instance : Add Binary64 := ⟨add⟩
instance : Sub Binary64 := ⟨sub⟩
instance : Mul Binary64 := ⟨mul⟩
instance : Div Binary64 := ⟨div⟩

/-! ### Tests -/

/-- Whether a value is a zero of either sign. -/
def isZero : Binary64 → Bool
  | finite _ a => a.units == 0
  | _ => false

/-- Whether a value is finite and has no fractional part. -/
def isWhole : Binary64 → Bool
  | finite _ a => a.units % Magnitude.unitsPerOne == 0
  | _ => false

/-! ### Words of 64 bits -/

/-- The value that a 64-bit word stands for: a sign bit, 11 bits of exponent, 52 bits of
fraction. -/
def ofBits (word : Nat) : Binary64 :=
  let negative := (word >>> 63) % 2 == 1
  let field := (word >>> 52) % 2048
  let fraction := word % (1 <<< 52)
  have hf : fraction < 1 <<< 52 := Nat.mod_lt _ (by decide)
  have hw : field < 2048 := Nat.mod_lt _ (by decide)
  if field = 0 then .finite negative ⟨fraction, 0, by omega, by omega, .inl rfl⟩
  else if h : field = 2047 then if fraction = 0 then .infinite negative else .nan
  else .finite negative ⟨1 <<< 52 + fraction, field - 1, by omega, by omega, .inr (by omega)⟩

/-- The 64-bit word of a value; of all the words of a NaN, the quiet one with no other bit set. -/
def toBits : Binary64 → Nat
  | nan => 0x7FF8000000000000
  | infinite s => s.toNat <<< 63 + 2047 <<< 52
  | finite s a =>
    s.toNat <<< 63 +
      if a.mantissa < 1 <<< 52 then a.mantissa
      else (a.exponent + 1) <<< 52 + (a.mantissa - 1 <<< 52)

end Binary64

end DryRun
