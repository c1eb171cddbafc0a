import Mathlib.Tactic.Ring
import DryRun.Proofs.Numeral

/-!
# Integers in binary64

A value of the format is its own rounding (`nearest_units`), and every integer of a size up to
`2 ^ 53` is a value of the format (`exists_units_eq`).  So the operations are exact on such integers
while the result is one too (`IsInt.add`, `IsInt.mul`, `IsInt.div`); their numerals are read as they
are (`WholeNumeral.exists_isInt`), and they are printed in decimal (`IsInt.text_eq`).
-/

namespace DryRun

/-- The decimal form of an integer. -/
def Text.ofInt (k : Int) : Text :=
  if k < 0 then '-' :: Nat.toDigits 10 k.natAbs else Nat.toDigits 10 k.natAbs

namespace Magnitude

theorem mul_one_shiftLeft (n k : Nat) : n * 1 <<< k = n <<< k := by
  rw [Nat.shiftLeft_eq, Nat.shiftLeft_eq, Nat.one_mul]

theorem mul_unitsPerOne (n : Nat) : n * unitsPerOne = n <<< 1074 := mul_one_shiftLeft n 1074

theorem unitsPerOne_pos : 0 < unitsPerOne := Nat.shiftLeft_pos_iff.2 Nat.one_pos

theorem units_eq (a : Magnitude) : a.units = a.mantissa * 2 ^ a.exponent := Nat.shiftLeft_eq _ _

/-- **An integer of a size up to `2 ^ 53` is a magnitude.** -/
theorem exists_units_eq {n : Nat} (hn : n ≤ 2 ^ 53) : ∃ a : Magnitude, a.units = n * unitsPerOne := by
  simp only [mul_unitsPerOne]
  by_cases h0 : n = 0
  · exact ⟨zero, by rw [h0, Nat.zero_shiftLeft]; rfl⟩
  by_cases hlt : n < 2 ^ 53
  · -- shifted up until all 53 bits are in use
    have hlog : n.log2 ≤ 52 := by
      have := (Nat.log2_lt h0).2 hlt
      omega
    have hlow : 2 ^ n.log2 * 2 ^ (52 - n.log2) = 2 ^ 52 := by
      rw [← Nat.pow_add, show n.log2 + (52 - n.log2) = 52 by omega]
    have hhigh : 2 ^ (n.log2 + 1) * 2 ^ (52 - n.log2) = 2 ^ 53 := by
      rw [← Nat.pow_add, show n.log2 + 1 + (52 - n.log2) = 53 by omega]
    refine ⟨⟨n <<< (52 - n.log2), n.log2 + 1022, ?_, by omega, .inr ?_⟩, ?_⟩
    · rw [Nat.shiftLeft_eq, Nat.shiftLeft_eq, Nat.one_mul, ← hhigh]
      exact Nat.mul_lt_mul_of_pos_right Nat.lt_log2_self (Nat.two_pow_pos _)
    · rw [Nat.shiftLeft_eq, Nat.shiftLeft_eq, Nat.one_mul, ← hlow]
      exact Nat.mul_le_mul_right _ (Nat.log2_self_le h0)
    · rw [units, ← Nat.shiftLeft_add, show 52 - n.log2 + (n.log2 + 1022) = 1074 by omega]
  · obtain rfl : n = 1 <<< 53 := by omega
    refine ⟨⟨1 <<< 52, 1075, by decide, by omega, .inr (Nat.le_refl _)⟩, ?_⟩
    exact (Nat.shiftLeft_add 1 52 1075).symm.trans (Nat.shiftLeft_add 1 53 1074)

end Magnitude

namespace Binary64

theorem roundDiv_mul (a : Nat) {b : Nat} (hb : 0 < b) : roundDiv (a * b) b = a := by
  simp [roundDiv, Nat.mul_div_cancel _ hb, hb]

/-- The exponent of a number is the least one at which it has at most 53 bits. -/
theorem exponentFor_eq_iff {n e : Nat} :
    exponentFor n = e ↔ n < 2 ^ (53 + e) ∧ (e = 0 ∨ 2 ^ (52 + e) ≤ n) := by
  by_cases hn : n = 0
  · subst hn
    have hzero : exponentFor 0 = 0 := rfl
    have hpos := Nat.two_pow_pos (52 + e)
    have hpos' := Nat.two_pow_pos (53 + e)
    omega
  · rw [← Nat.log2_lt hn, ← Nat.le_log2 hn, exponentFor]
    omega

theorem exponentFor_units (a : Magnitude) : exponentFor a.units = a.exponent := by
  have hlt := a.mantissa_lt
  have hnormal := a.normal
  rw [Nat.one_shiftLeft] at hlt hnormal
  rw [exponentFor_eq_iff, Magnitude.units_eq, Nat.pow_add, Nat.pow_add]
  refine ⟨Nat.mul_lt_mul_of_pos_right hlt (Nat.two_pow_pos _), hnormal.imp_right fun hle => ?_⟩
  exact Nat.mul_le_mul_right _ hle

/-- **A value of the format is its own rounding.** -/
theorem nearest_units (s : Bool) (a : Magnitude) {den : Nat} (hden : 0 < den) :
    nearest s (a.units * den) den = .finite s a := by
  have he : exponentFor (a.units * den / den) = a.exponent := by
    rw [Nat.mul_div_cancel _ hden, exponentFor_units]
  have hm : roundDiv (a.units * den) (den <<< a.exponent) = a.mantissa := by
    rw [Magnitude.units, Nat.shiftLeft_eq, Nat.shiftLeft_eq, Nat.mul_assoc, Nat.mul_comm (2 ^ _) den]
    exact roundDiv_mul _ (Nat.mul_pos hden (Nat.two_pow_pos _))
  simp only [nearest, he, hm, a.mantissa_lt, a.exponent_le, dite_true]

/-! ### Integers -/

/-- The integer with a sign and a size. -/
def signed (negative : Bool) (n : Nat) : Int := if negative then -(n : Int) else n

@[simp] theorem natAbs_signed (s : Bool) (n : Nat) : (signed s n).natAbs = n := by
  cases s <;> simp [signed]

theorem signed_mul (s t : Bool) (m n : Nat) : signed s m * signed t n = signed (s != t) (m * n) := by
  cases s <;> cases t <;> simp [signed]

/-- The size of a finite value in units, negative below zero. -/
def signedUnits? : Binary64 → Option Int
  | finite s a => some (signed s a.units)
  | _ => none

/-- Whether a value is the integer `k`.  A zero of either sign is `0`. -/
def IsInt (x : Binary64) (k : Int) : Prop := x.signedUnits? = some (k * Magnitude.unitsPerOne)

variable {x y : Binary64} {j k : Int}

theorem isInt_iff : x.IsInt k ↔ ∃ s n a, x = finite s a ∧ a.units = n * Magnitude.unitsPerOne ∧
    k = signed s n := by
  have hunit : signed false Magnitude.unitsPerOne = Magnitude.unitsPerOne := rfl
  have hmul : ∀ s n, signed s (n * Magnitude.unitsPerOne) = signed s n * Magnitude.unitsPerOne := by
    intro s n
    rw [← hunit, signed_mul, Bool.bne_false]
  constructor
  · intro h
    cases x with
    | nan => cases h
    | infinite s => cases h
    | finite s a =>
      have h : signed s a.units = k * Magnitude.unitsPerOne := Option.some.inj h
      have hunits : a.units = k.natAbs * Magnitude.unitsPerOne := by
        have h := congrArg Int.natAbs h
        rwa [Int.natAbs_mul, Int.natAbs_natCast, natAbs_signed] at h
      rw [hunits, hmul] at h
      have hone := Int.natCast_ne_zero.2 (Nat.ne_of_gt Magnitude.unitsPerOne_pos)
      exact ⟨s, k.natAbs, a, rfl, hunits, (Int.eq_of_mul_eq_mul_right hone h).symm⟩
  · rintro ⟨s, n, a, rfl, hunits, rfl⟩
    rw [IsInt, signedUnits?, hunits, hmul]

/-- **A quotient of units that is an integer of a size up to `2 ^ 53` is rounded to it.** -/
theorem isInt_nearest (s : Bool) {n den : Nat} (hn : n ≤ 2 ^ 53) (hden : 0 < den) :
    (nearest s (n * Magnitude.unitsPerOne * den) den).IsInt (signed s n) := by
  obtain ⟨a, ha⟩ := Magnitude.exists_units_eq hn
  rw [← ha, nearest_units s a hden]
  exact isInt_iff.2 ⟨s, n, a, rfl, ha, rfl⟩

theorem IsInt.neg (hx : x.IsInt j) : (-x).IsInt (-j) := by
  obtain ⟨s, m, a, rfl, ha, rfl⟩ := isInt_iff.1 hx
  exact isInt_iff.2 ⟨!s, m, a, rfl, ha, by cases s <;> simp [signed]⟩

theorem IsInt.add (hx : x.IsInt j) (hy : y.IsInt k) (hsum : (j + k).natAbs ≤ 2 ^ 53) :
    (x + y).IsInt (j + k) := by
  obtain ⟨s, m, a, rfl, ha, rfl⟩ := isInt_iff.1 hx
  obtain ⟨t, n, b, rfl, hb, rfl⟩ := isInt_iff.1 hy
  have hpos := Magnitude.unitsPerOne_pos
  have hrounds : ∀ {k : Int} (s : Bool) (i : Nat), k.natAbs ≤ 2 ^ 53 → k = signed s i →
      (nearest s (i * Magnitude.unitsPerOne) 1).IsInt k := by
    rintro k s i hk rfl
    rw [natAbs_signed] at hk
    have h := isInt_nearest s hk Nat.one_pos
    rwa [Nat.mul_one] at h
  have heq : a.units = b.units ↔ m = n := by
    rw [ha, hb, Nat.mul_left_inj (Nat.ne_of_gt hpos)]
  have hlt : b.units < a.units ↔ n < m := by
    rw [ha, hb, Nat.mul_lt_mul_right hpos]
  show (if s = t then nearest s (a.units + b.units) 1
    else if a.units = b.units then finite false .zero
    else if b.units < a.units then nearest s (a.units - b.units) 1
    else nearest t (b.units - a.units) 1).IsInt _
  simp only [heq, hlt]
  split_ifs with hsign hmn hnm
  · rw [ha, hb, ← Nat.add_mul]
    refine hrounds s (m + n) hsum ?_
    cases s <;> simp [signed, ← hsign]
    omega
  · have hzero : signed s m + signed t n = signed false 0 := by
      cases s <;> cases t <;> simp_all [signed]
    exact isInt_iff.2 ⟨false, 0, .zero, rfl, by simp [Magnitude.units, Magnitude.zero], hzero⟩
  · rw [ha, hb, ← Nat.sub_mul]
    refine hrounds s (m - n) hsum ?_
    cases s <;> cases t <;> simp [signed] at hsign ⊢ <;> omega
  · rw [ha, hb, ← Nat.sub_mul]
    refine hrounds t (n - m) hsum ?_
    cases s <;> cases t <;> simp [signed] at hsign ⊢ <;> omega

theorem IsInt.sub (hx : x.IsInt j) (hy : y.IsInt k) (hdiff : (j - k).natAbs ≤ 2 ^ 53) :
    (x - y).IsInt (j - k) := by
  rw [Int.sub_eq_add_neg] at hdiff ⊢
  exact hx.add hy.neg hdiff

theorem IsInt.mul (hx : x.IsInt j) (hy : y.IsInt k) (hprod : (j * k).natAbs ≤ 2 ^ 53) :
    (x * y).IsInt (j * k) := by
  obtain ⟨s, m, a, rfl, ha, rfl⟩ := isInt_iff.1 hx
  obtain ⟨t, n, b, rfl, hb, rfl⟩ := isInt_iff.1 hy
  have hunits : a.units * b.units = m * n * Magnitude.unitsPerOne * Magnitude.unitsPerOne := by
    rw [ha, hb]
    ring
  rw [signed_mul, natAbs_signed] at hprod
  show (nearest (s != t) (a.units * b.units) Magnitude.unitsPerOne).IsInt _
  rw [hunits, signed_mul]
  exact isInt_nearest (s != t) hprod Magnitude.unitsPerOne_pos

theorem IsInt.div (hx : x.IsInt (j * k)) (hy : y.IsInt k) (hk : k ≠ 0) (hj : j.natAbs ≤ 2 ^ 53) :
    (x / y).IsInt j := by
  obtain ⟨s, m, a, rfl, ha, hm⟩ := isInt_iff.1 hx
  obtain ⟨t, n, b, rfl, hb, rfl⟩ := isInt_iff.1 hy
  have hn : 0 < n := by
    have h := Int.natAbs_pos.2 hk
    rwa [natAbs_signed] at h
  have hbpos : 0 < b.units := by
    rw [hb]
    exact Nat.mul_pos hn Magnitude.unitsPerOne_pos
  have hsize : m = j.natAbs * n := by
    have h := congrArg Int.natAbs hm
    rwa [Int.natAbs_mul, natAbs_signed, natAbs_signed, eq_comm] at h
  have hunits : a.units * Magnitude.unitsPerOne = j.natAbs * Magnitude.unitsPerOne * b.units := by
    rw [ha, hb, hsize]
    ring
  have hsign : j = signed (s != t) j.natAbs := by
    refine Int.eq_of_mul_eq_mul_right hk (hm.trans ?_)
    rw [signed_mul, hsize, Bool.bne_assoc, bne_self_eq_false, Bool.bne_false]
  show (if b.units = 0 then _ else nearest (s != t) (a.units * Magnitude.unitsPerOne) b.units).IsInt j
  rw [if_neg (Nat.ne_of_gt hbpos), hunits, hsign, natAbs_signed]
  exact isInt_nearest (s != t) hj hbpos

theorem IsInt.isZero_eq_false (hx : x.IsInt k) (hk : k ≠ 0) : x.isZero = false := by
  obtain ⟨s, n, a, rfl, ha, rfl⟩ := isInt_iff.1 hx
  have hn : n ≠ 0 := by
    rintro rfl
    exact hk (by cases s <;> rfl)
  simp [isZero, ha, hn, Nat.ne_of_gt Magnitude.unitsPerOne_pos]

/-- A value that is an integer is printed in the decimal form of the integer. -/
theorem IsInt.text_eq (hx : x.IsInt k) : x.text = Text.ofInt k := by
  obtain ⟨s, n, a, rfl, ha, rfl⟩ := isInt_iff.1 hx
  have hpos := Magnitude.unitsPerOne_pos
  have hdigits : a.text = Nat.toDigits 10 n := by
    have hmod : a.units % Magnitude.unitsPerOne = 0 := by
      rw [ha]
      exact Nat.mul_mod_left _ _
    rw [Magnitude.text, if_pos hmod, ha, Nat.mul_div_cancel _ hpos]
  have hzero : a.units ≠ 0 ↔ n ≠ 0 := by
    rw [ha, Nat.mul_ne_zero_iff]
    exact and_iff_left hpos.ne'
  have hsign : (s ∧ n ≠ 0) ↔ signed s n < 0 := by
    cases s <;> simp [signed]
  show (if s ∧ a.units ≠ 0 then '-' :: a.text else a.text) = _
  rw [Text.ofInt, natAbs_signed, hdigits]
  exact if_congr ((and_congr_right fun _ => hzero).trans hsign) rfl rfl

end Binary64

/-! ### Reading integers -/

/-- A numeral without a point. -/
structure WholeNumeral where
  negative : Bool
  digits : Text
  isDigits : IsDigits digits

namespace WholeNumeral

def text (n : WholeNumeral) : Text := if n.negative then '-' :: n.digits else n.digits

/-- The integer that a whole numeral writes. -/
def value (n : WholeNumeral) : Int := Binary64.signed n.negative (Nat.ofDigitChars 10 n.digits 0)

/-- The decimal form of an integer as a numeral. -/
def ofInt (k : Int) : WholeNumeral where
  negative := k < 0
  digits := Nat.toDigits 10 k.natAbs
  isDigits := isDigits_toDigits _

theorem ofText?_text (n : WholeNumeral) : Numeral.ofText? n.text = some ⟨n.negative, n.digits, []⟩ :=
  Numeral.ofText?_eq_some_iff.2
    ⟨⟨n.isDigits, by simp⟩, by simp [text, Numeral.text, Numeral.unsignedText]⟩

theorem isNumeral_text (n : WholeNumeral) : n.text.isNumeral := by
  rw [Text.isNumeral, n.ofText?_text]
  rfl

theorem text_ofInt (k : Int) : (ofInt k).text = Text.ofInt k := by
  simp [text, ofInt, Text.ofInt]

theorem value_ofInt (k : Int) : (ofInt k).value = k := by
  rw [value, ofInt, Nat.ofDigitChars_ten_toDigits, Binary64.signed]
  simp only [decide_eq_true_eq]
  omega

theorem number?_text (n : WholeNumeral) : n.text.number? = some
    (.nearest n.negative (Nat.ofDigitChars 10 n.digits 0 * Magnitude.unitsPerOne) 1) := by
  rw [Text.number?, n.ofText?_text, Option.map_some, Numeral.value, List.append_nil]
  rfl

/-- **A whole numeral of a size up to `2 ^ 53` is read as the integer that it writes.** -/
theorem exists_isInt (n : WholeNumeral) (hn : n.value.natAbs ≤ 2 ^ 53) :
    ∃ x, n.text.number? = some x ∧ x.IsInt n.value := by
  rw [value, Binary64.natAbs_signed] at hn
  have h := Binary64.isInt_nearest n.negative hn Nat.one_pos
  rw [Nat.mul_one] at h
  exact ⟨_, n.number?_text, h⟩

end WholeNumeral

end DryRun
