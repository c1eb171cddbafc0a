import DryRun.Proofs.Binary64.Integers

/-!
# Rounding to the nearest value

A quotient is rounded to a whole number that is at most a half away from it, and even where it is exactly
a half away (`roundDiv_eq_iff`).  A quotient of units is rounded to a finite value exactly if it lies
between the middles to the neighbours of that value, where a middle belongs to the neighbour with the even
mantissa (`nearest_eq_finite_iff`).
-/

namespace DryRun

namespace Binary64

variable {s : Bool} {a : Magnitude} {num den e m : Nat}

/-! ### Whole numbers -/

/-- **A quotient is rounded to the nearest whole number**, and to the even one of two that are equally
near. -/
theorem roundDiv_eq_iff (hden : 0 < den) : roundDiv num den = m ↔
    2 * (m * den) ≤ 2 * num + den ∧ 2 * num ≤ 2 * (m * den) + den ∧
      (2 * (m * den) = 2 * num + den ∨ 2 * num = 2 * (m * den) + den → m % 2 = 0) := by
  have hnum : num = num / den * den + num % den := by
    rw [Nat.mul_comm]
    exact (Nat.div_add_mod num den).symm
  have hlt : num % den < den := Nat.mod_lt num hden
  have hunfold : roundDiv num den = if 2 * (num % den) < den ∨ 2 * (num % den) = den ∧
      num / den % 2 = 0 then num / den else num / den + 1 := rfl
  have hsucc : (num / den + 1) * den = num / den * den + den := Nat.succ_mul _ _
  constructor
  · rintro rfl
    rw [hunfold]
    split <;> omega
  · rintro ⟨hlow, hhigh, heven⟩
    -- only the two neighbours of the quotient are near enough
    have hle : num / den ≤ m := by
      by_contra hm
      have := Nat.mul_le_mul_right den (show m + 1 ≤ num / den by omega)
      rw [Nat.succ_mul] at this
      omega
    have hge : m ≤ num / den + 1 := by
      by_contra hm
      have := Nat.mul_le_mul_right den (show num / den + 2 ≤ m by omega)
      rw [Nat.add_mul] at this
      omega
    rw [hunfold]
    obtain rfl | rfl : m = num / den ∨ m = num / den + 1 := by omega
    · split <;> omega
    · split <;> omega

/-- The exponent of a quotient is the least one at which it has at most 53 bits before the point. -/
theorem exponentFor_div_eq_iff (hden : 0 < den) : exponentFor (num / den) = e ↔
    num < 2 ^ 53 * den <<< e ∧ (e = 0 ∨ 2 ^ 52 * den <<< e ≤ num) := by
  have hscaled : ∀ k, 2 ^ (k + e) * den = 2 ^ k * den <<< e := by
    intro k
    rw [Nat.shiftLeft_eq, Nat.pow_add, Nat.mul_assoc, Nat.mul_comm (2 ^ e)]
  rw [exponentFor_eq_iff, Nat.div_lt_iff_lt_mul hden, Nat.le_div_iff_mul_le hden, hscaled, hscaled]

/-! ### Values -/

theorem finite_eq_finite_iff {b : Magnitude} :
    finite s a = finite s b ↔ a.mantissa = b.mantissa ∧ a.exponent = b.exponent := by
  cases a
  cases b
  simp

theorem negative_of_nearest {t : Bool} (h : nearest s num den = finite t a) : s = t := by
  unfold nearest at h
  dsimp only at h
  split at h <;> split at h <;> cases h <;> rfl

/-- A quotient is rounded at its exponent, or to the least mantissa at the next one. -/
theorem nearest_eq_finite_iff_exponent : nearest s num den = finite s a ↔
    exponentFor (num / den) = a.exponent ∧ roundDiv num (den <<< a.exponent) = a.mantissa ∨
      a.mantissa = 1 <<< 52 ∧ exponentFor (num / den) + 1 = a.exponent ∧
        1 <<< 53 ≤ roundDiv num (den <<< exponentFor (num / den)) := by
  have hmantissa := a.mantissa_lt
  have hexponent := a.exponent_le
  unfold nearest
  dsimp only
  -- the mantissa may be rounded up to `2 ^ 53`, and then the exponent is one more
  by_cases hm : roundDiv num (den <<< exponentFor (num / den)) < 1 <<< 53
  · rw [dif_pos hm, or_iff_left fun h => Nat.not_le.2 hm h.2.2]
    constructor
    · intro h
      split at h
      · obtain ⟨hround, he⟩ := finite_eq_finite_iff.1 h
        refine ⟨he, ?_⟩
        rw [← he]
        exact hround
      · cases h
    · rintro ⟨he, hround⟩
      rw [← he] at hround
      rw [dif_pos (by omega), finite_eq_finite_iff]
      exact ⟨hround, he⟩
  · rw [dif_neg hm]
    constructor
    · intro h
      split at h
      · obtain ⟨hround, he⟩ := finite_eq_finite_iff.1 h
        exact Or.inr ⟨hround.symm, he, Nat.not_lt.1 hm⟩
      · cases h
    · rintro (⟨he, hround⟩ | ⟨hround, he, -⟩)
      · rw [he, hround] at hm
        exact absurd hmantissa hm
      · rw [dif_pos (by omega), finite_eq_finite_iff, hround]
        exact ⟨rfl, he⟩

end Binary64

namespace Magnitude

open Binary64

variable {s : Bool} {a : Magnitude} {num den : Nat}

/-- Whether `num / den` units lie between the middles to the neighbours of a magnitude.  A middle belongs
to the neighbour with the even mantissa. -/
structure Admits (a : Magnitude) (num den : Nat) : Prop where
  below : 4 * (a.units * den) ≤ 4 * num + a.roomBelow * den
  above : 4 * num ≤ 4 * (a.units * den) + a.roomAbove * den
  even : 4 * (a.units * den) = 4 * num + a.roomBelow * den ∨
    4 * num = 4 * (a.units * den) + a.roomAbove * den → a.mantissa % 2 = 0

/-- The distances in terms of `den` units shifted up to the exponent. -/
theorem distances (a : Magnitude) (den : Nat) :
    a.units * den = a.mantissa * den <<< a.exponent ∧ a.roomAbove * den = 2 * den <<< a.exponent ∧
      (a.mantissa = 1 <<< 52 ∧ a.exponent ≠ 0 → a.roomBelow * den = den <<< a.exponent) ∧
      (¬ (a.mantissa = 1 <<< 52 ∧ a.exponent ≠ 0) → a.roomBelow * den = 2 * den <<< a.exponent) := by
  have hscaled : ∀ k, k <<< a.exponent * den = k * den <<< a.exponent := by
    intro k
    rw [Nat.shiftLeft_eq, Nat.shiftLeft_eq, Nat.mul_assoc, Nat.mul_comm (2 ^ _)]
  refine ⟨hscaled _, hscaled 2, fun h => ?_, fun h => ?_⟩
  · rw [roomBelow, if_pos h, hscaled, Nat.one_mul]
  · rw [roomBelow, if_neg h, hscaled]

theorem shiftLeft_pos (hden : 0 < den) (k : Nat) : 0 < den <<< k := by
  rw [Nat.shiftLeft_eq]
  exact Nat.mul_pos hden (Nat.two_pow_pos k)

/-- Where the exponent of a quotient is at least that of the magnitude, the middles are those of the
mantissa. -/
theorem admits_iff_of_le (hden : 0 < den)
    (h : a.exponent = 0 ∨ 2 ^ 52 * den <<< a.exponent ≤ num) :
    a.Admits num den ↔ exponentFor (num / den) = a.exponent ∧
      roundDiv num (den <<< a.exponent) = a.mantissa := by
  obtain ⟨hunits, habove, hsmall, hlarge⟩ := a.distances den
  have hb := shiftLeft_pos hden a.exponent
  have hlt : a.mantissa * den <<< a.exponent ≤ (2 ^ 53 - 1) * den <<< a.exponent := by
    have := a.mantissa_lt
    exact Nat.mul_le_mul_right _ (by omega)
  have hleast : a.mantissa = 1 <<< 52 → a.mantissa * den <<< a.exponent = 2 ^ 52 * den <<< a.exponent :=
    fun h => by rw [h]; rfl
  rw [exponentFor_div_eq_iff hden, roundDiv_eq_iff hb]
  constructor
  · rintro ⟨hbelow, habove', heven⟩
    rw [hunits] at hbelow habove' heven
    rw [habove] at habove' heven
    by_cases hroom : a.mantissa = 1 <<< 52 ∧ a.exponent ≠ 0
    · rw [hsmall hroom] at hbelow heven
      refine ⟨⟨by omega, h⟩, by omega, by omega, fun _ => by omega⟩
    · rw [hlarge hroom] at hbelow heven
      exact ⟨⟨by omega, h⟩, by omega, by omega, fun _ => heven (by omega)⟩
  · rintro ⟨-, hlow, hhigh, heven⟩
    by_cases hroom : a.mantissa = 1 <<< 52 ∧ a.exponent ≠ 0
    · -- the least mantissa: below it the neighbour is half as far away
      have hle := h.resolve_left hroom.2
      have hmb := hleast hroom.1
      refine ⟨?_, ?_, fun _ => by omega⟩ <;> rw [hunits]
      · rw [hsmall hroom]
        omega
      · rw [habove]
        omega
    · refine ⟨?_, ?_, ?_⟩ <;> rw [hunits]
      · rw [hlarge hroom]
        omega
      · rw [habove]
        omega
      · rw [hlarge hroom, habove]
        exact fun h => heven (by omega)

/-- Below the least mantissa of its exponent a magnitude admits what is rounded up to that. -/
theorem admits_iff_of_lt (hden : 0 < den) (hexponent : a.exponent ≠ 0)
    (h : num < 2 ^ 52 * den <<< a.exponent) :
    a.Admits num den ↔ a.mantissa = 1 <<< 52 ∧ exponentFor (num / den) + 1 = a.exponent ∧
      1 <<< 53 ≤ roundDiv num (den <<< exponentFor (num / den)) := by
  obtain ⟨hunits, habove, hsmall, hlarge⟩ := a.distances den
  obtain ⟨e, he⟩ := Nat.exists_eq_add_one_of_ne_zero hexponent
  have hnormal : 1 <<< 52 ≤ a.mantissa := a.normal.resolve_left hexponent
  have hb := shiftLeft_pos hden e
  have hdouble : den <<< a.exponent = 2 * den <<< e := by
    rw [he, Nat.shiftLeft_succ]
  have hround := (@roundDiv_eq_iff num (den <<< e) _ hb).1 rfl
  rw [hdouble] at h hunits habove hsmall hlarge
  constructor
  · rintro ⟨hbelow, -, -⟩
    rw [hunits] at hbelow
    have hm : a.mantissa = 1 <<< 52 := by
      by_contra hne
      have hlow := Nat.mul_le_mul_right (2 * den <<< e) (show 1 <<< 52 + 1 ≤ a.mantissa by omega)
      rw [hlarge fun h => hne h.1] at hbelow
      omega
    rw [hm, hsmall ⟨hm, hexponent⟩] at hbelow
    have hexp : exponentFor (num / den) = e := (exponentFor_div_eq_iff hden).2 ⟨by omega, Or.inr (by omega)⟩
    refine ⟨hm, by rw [hexp, he], ?_⟩
    rw [hexp]
    by_contra hlt
    -- the quotient would be the middle to the mantissa `2 ^ 53 - 1`, which is odd
    have hle := Nat.mul_le_mul_right (den <<< e) (show roundDiv num (den <<< e) ≤ 2 ^ 53 - 1 by omega)
    have hodd : roundDiv num (den <<< e) = 2 ^ 53 - 1 := Nat.eq_of_mul_eq_mul_right hb (by omega)
    have heven := hround.2.2 (Or.inr (by omega))
    omega
  · rintro ⟨hm, hexp, hlow⟩
    obtain rfl : exponentFor (num / den) = e := by omega
    have hhigh := Nat.mul_le_mul_right (den <<< exponentFor (num / den)) hlow
    refine ⟨?_, ?_, fun _ => by omega⟩ <;> rw [hunits, hm]
    · rw [hsmall ⟨hm, hexponent⟩]
      omega
    · rw [habove]
      omega

/-- **A quotient is rounded to a finite value exactly if it lies between the middles to the neighbours of
that value.** -/
theorem nearest_eq_finite_iff (hden : 0 < den) : nearest s num den = .finite s a ↔ a.Admits num den := by
  rw [nearest_eq_finite_iff_exponent]
  by_cases h : a.exponent = 0 ∨ 2 ^ 52 * den <<< a.exponent ≤ num
  · rw [admits_iff_of_le hden h]
    refine or_iff_left ?_
    rintro ⟨-, he, -⟩
    have hlt := ((@exponentFor_div_eq_iff num den _ hden).1 rfl).1
    have hle := h.resolve_left (by omega)
    rw [← he, Nat.shiftLeft_succ] at hle
    omega
  · rw [not_or, Nat.not_le] at h
    rw [admits_iff_of_lt hden h.1 h.2]
    refine or_iff_right ?_
    rintro ⟨he, -⟩
    exact absurd (((exponentFor_div_eq_iff hden).1 he).2.resolve_left h.1) (Nat.not_le.2 h.2)

end Magnitude

end DryRun
