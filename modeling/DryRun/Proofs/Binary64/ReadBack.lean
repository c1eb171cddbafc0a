import DryRun.Proofs.Binary64.Rounding

/-!
# Printed numbers are read back

A decimal reads back as a magnitude exactly if it is rounded to it (`readsBack_iff`).  The search for the
shortest decimal tries place after place; at each of them it finds a decimal if there is one
(`isSome_digitsAt?_iff`), and 1074 places are enough for all the digits of a unit (`shortest_spec`).  So
every finite value is printed as a numeral that is read as the same value
(`isNumeral_text_and_number?_text`), and no numeral with fewer decimal places is
(`length_fraction_numeral_le`).
-/

namespace DryRun

/-! ### Powers of ten -/

theorem tenTo_pos (places : Nat) : 0 < tenTo places := Nat.pow_pos (by decide)

theorem one_shiftLeft_dvd_tenTo (places : Nat) : 1 <<< places ∣ tenTo places := by
  rw [Nat.shiftLeft_eq, Nat.one_mul]
  exact ⟨5 ^ places, Nat.mul_pow 2 5 places⟩

namespace Magnitude

open Binary64

variable {s : Bool} {a : Magnitude} {num num' den digits places : Nat}

theorem units_eq_zero_iff : a.units = 0 ↔ a = .zero := by
  constructor
  · intro h
    have hmantissa : a.mantissa = 0 := by
      rw [units_eq, Nat.mul_eq_zero] at h
      exact h.resolve_right (Nat.two_pow_pos _).ne'
    have hexponent : a.exponent = 0 := a.normal.resolve_right (by omega)
    exact (Binary64.finite.inj (@finite_eq_finite_iff false a .zero |>.2 ⟨hmantissa, hexponent⟩)).2
  · rintro rfl
    rfl

theorem unitsPerOne_dvd_tenTo : unitsPerOne ∣ tenTo 1074 := one_shiftLeft_dvd_tenTo 1074

/-! ### The decimals that read back -/

theorem roomBelow_le_units (h : a.mantissa % 2 = 1) : a.roomBelow ≤ 4 * a.units := by
  have hroom : a.roomBelow ≤ 2 <<< a.exponent := by
    unfold roomBelow
    split <;> simp only [Nat.shiftLeft_eq] <;> omega
  have hunits : 1 <<< a.exponent ≤ a.units := by
    rw [units, Nat.shiftLeft_eq, Nat.shiftLeft_eq]
    exact Nat.mul_le_mul_right _ (by omega)
  rw [Nat.shiftLeft_eq] at hroom hunits
  omega

/-- **A decimal reads back as a magnitude exactly if it lies between the middles to its neighbours.** -/
theorem readsBack_iff_admits :
    a.readsBack digits places ↔ a.Admits (digits * unitsPerOne) (tenTo places) := by
  have hlow : (4 * a.units - a.roomBelow) * tenTo places =
      4 * (a.units * tenTo places) - a.roomBelow * tenTo places := by
    rw [Nat.sub_mul, Nat.mul_assoc]
  have hhigh : (4 * a.units + a.roomAbove) * tenTo places =
      4 * (a.units * tenTo places) + a.roomAbove * tenTo places := by
    rw [Nat.add_mul, Nat.mul_assoc]
  unfold readsBack
  dsimp only
  rw [hlow, hhigh, Nat.mul_assoc]
  by_cases heven : a.mantissa % 2 = 0
  · rw [if_pos heven, Bool.and_eq_true, decide_eq_true_eq, decide_eq_true_eq]
    exact ⟨fun ⟨h1, h2⟩ => ⟨by omega, h2, fun _ => heven⟩, fun ⟨h1, h2, _⟩ => ⟨by omega, h2⟩⟩
  · have hroom := Nat.mul_le_mul_right (tenTo places) (roomBelow_le_units (a := a) (by omega))
    rw [Nat.mul_assoc] at hroom
    rw [if_neg heven, Bool.and_eq_true, decide_eq_true_eq, decide_eq_true_eq]
    refine ⟨fun ⟨h1, h2⟩ => ⟨by omega, by omega, by omega⟩, fun ⟨h1, h2, h3⟩ => ?_⟩
    have h3 := mt h3 heven
    omega

theorem readsBack_iff : a.readsBack digits places ↔
    nearest s (digits * unitsPerOne) (tenTo places) = .finite s a := by
  rw [readsBack_iff_admits, nearest_eq_finite_iff (tenTo_pos places)]

/-- Up to the exponent of a one, magnitudes are near to whole numbers up to `2 ^ 53` only. -/
theorem Admits.digits_le (h : a.Admits (digits * unitsPerOne) 1) (hexponent : a.exponent ≤ 1074) :
    digits ≤ 2 ^ 53 := by
  have hshift : ∀ k, a.exponent ≤ k → 2 ^ a.exponent ≤ 1 <<< k := by
    intro k hk
    rw [Nat.one_shiftLeft]
    exact Nat.pow_le_pow_right Nat.two_pos hk
  have hunit : 2 ^ a.exponent ≤ unitsPerOne := hshift 1074 hexponent
  have hmantissa := Nat.mul_le_mul_right (2 ^ a.exponent)
    (show a.mantissa ≤ 2 ^ 53 - 1 from Nat.le_sub_one_of_lt a.mantissa_lt)
  have habove := h.above
  rw [units_eq, roomAbove, Nat.shiftLeft_eq] at habove
  have hdigits : digits * unitsPerOne ≤ 2 ^ 53 * unitsPerOne := by omega
  exact Nat.le_of_mul_le_mul_right hdigits unitsPerOne_pos

/-- What a whole number is rounded to is whole. -/
theorem units_mod_of_nearest (h : nearest s (digits * unitsPerOne) (tenTo 0) = .finite s a) :
    a.units % unitsPerOne = 0 := by
  have h : nearest s (digits * unitsPerOne) 1 = .finite s a := h
  by_cases hexponent : 1074 ≤ a.exponent
  · obtain ⟨k, hk⟩ := Nat.exists_eq_add_of_le hexponent
    rw [units, hk, Nat.add_comm, Nat.shiftLeft_add, ← mul_unitsPerOne]
    exact Nat.mul_mod_left _ _
  · -- below that exponent the number is so small that it is its own rounding
    have hadmits := (nearest_eq_finite_iff Nat.one_pos).1 h
    obtain ⟨b, hb⟩ := exists_units_eq (hadmits.digits_le (Nat.le_of_not_le hexponent))
    rw [← hb, ← Nat.mul_one b.units, nearest_units s b Nat.one_pos] at h
    cases h
    rw [hb]
    exact Nat.mul_mod_left _ _

/-- What lies nearer to a magnitude on the same side is admitted too. -/
theorem Admits.of_nearer (h : a.Admits num den) (hden : 0 < den)
    (hnear : num ≤ num' ∧ num' ≤ a.units * den ∨ a.units * den ≤ num' ∧ num' ≤ num) :
    a.Admits num' den := by
  obtain ⟨hbelow, habove, heven⟩ := h
  have hroom : 0 < a.roomAbove * den := Nat.mul_pos (shiftLeft_pos (by decide) _) hden
  have hroom' : 0 < a.roomBelow * den := by
    refine Nat.mul_pos ?_ hden
    unfold roomBelow
    split <;> exact shiftLeft_pos (by decide) _
  exact ⟨by omega, by omega, fun hmiddle => heven (by omega)⟩

theorem readsBack_of_digitsAt? (h : a.digitsAt? places = some digits) : a.readsBack digits places :=
  @List.find?_some _ (a.readsBack · places) _ _ h

/-- **At each place a decimal is found if any reads back**: of those that do, one of the two neighbours of
the magnitude is nearest to it. -/
theorem isSome_digitsAt?_iff :
    (a.digitsAt? places).isSome ↔ ∃ digits, a.readsBack digits places := by
  constructor
  · intro h
    obtain ⟨digits, h⟩ := Option.isSome_iff_exists.1 h
    exact ⟨digits, readsBack_of_digitsAt? h⟩
  · rintro ⟨digits, h⟩
    have hone := unitsPerOne_pos
    have hdown : a.units * tenTo places / unitsPerOne * unitsPerOne ≤ a.units * tenTo places :=
      Nat.div_mul_le_self _ _
    have hup := Nat.lt_div_mul_add (a := a.units * tenTo places) hone
    have hneighbour : a.readsBack (a.units * tenTo places / unitsPerOne) places ∨
        a.readsBack (a.units * tenTo places / unitsPerOne + 1) places := by
      rw [readsBack_iff_admits] at h
      simp only [readsBack_iff_admits]
      -- the neighbour on the side of `digits` is nearer than `digits`
      by_cases hside : digits ≤ a.units * tenTo places / unitsPerOne
      · exact Or.inl (h.of_nearer (tenTo_pos _) (Or.inl ⟨Nat.mul_le_mul_right _ hside, hdown⟩))
      · refine Or.inr (h.of_nearer (tenTo_pos _) (Or.inr ⟨?_, Nat.mul_le_mul_right _ (by omega)⟩))
        rw [Nat.succ_mul]
        omega
    rw [digitsAt?, List.find?_isSome]
    split <;> simpa [or_comm] using hneighbour

/-! ### The search for the shortest -/

/-- The search stops at the first place at which a decimal is found, or at the last place. -/
theorem shortestFrom_spec (a : Magnitude) : ∀ more places, ∃ digits last,
    a.shortestFrom places more = (digits, last) ∧ places ≤ last ∧
      (∀ k, places ≤ k → k < last → a.digitsAt? k = none) ∧
      (a.digitsAt? last = some digits ∨
        last = places + more ∧ digits = a.units * tenTo last / unitsPerOne)
  | 0, places => ⟨_, places, rfl, Nat.le_refl _, fun k hle hlt => by omega, Or.inr ⟨rfl, rfl⟩⟩
  | more + 1, places => by
    cases h : a.digitsAt? places with
    | some digits =>
      exact ⟨digits, places, by rw [shortestFrom, h], Nat.le_refl _, fun k hle hlt => by omega, Or.inl h⟩
    | none =>
      obtain ⟨digits, last, heq, hle, hnone, hlast⟩ := a.shortestFrom_spec more (places + 1)
      refine ⟨digits, last, by rw [shortestFrom, h, heq], by omega, fun k hk hlt => ?_, ?_⟩
      · rcases Nat.eq_or_lt_of_le hk with rfl | hk
        · exact h
        · exact hnone k hk hlt
      · rw [show places + (more + 1) = places + 1 + more by omega]
        exact hlast

/-- **The search ends at a decimal that reads back, and none with fewer places does.** -/
theorem shortest_spec (a : Magnitude) : ∃ digits places, a.shortestFrom 1 1073 = (digits, places) ∧
    0 < places ∧ a.readsBack digits places ∧
      ∀ k digits, 0 < k → k < places → ¬ a.readsBack digits k := by
  obtain ⟨digits, places, heq, hpos, hnone, hfound⟩ := a.shortestFrom_spec 1073 1
  refine ⟨digits, places, heq, hpos, ?_, fun k digits hk hlt h => ?_⟩
  · rcases hfound with hfound | ⟨rfl, rfl⟩
    · exact readsBack_of_digitsAt? hfound
    · -- at the last place the decimal is the magnitude itself
      rw [readsBack_iff (s := false), Nat.div_mul_cancel]
      · exact nearest_units false a (tenTo_pos _)
      · exact Dvd.dvd.mul_left unitsPerOne_dvd_tenTo a.units
  · have hsome := isSome_digitsAt?_iff.2 ⟨digits, h⟩
    rw [hnone k hk hlt] at hsome
    cases hsome

end Magnitude

/-! ### Digits -/

/-- The parts of a decimal with the point before its last `places` digits. -/
def Numeral.ofDecimal (negative : Bool) (digits places : Nat) : Numeral where
  negative := negative
  whole := Nat.toDigits 10 (digits / tenTo places)
  fraction :=
    let fraction := Nat.toDigits 10 (digits % tenTo places)
    List.replicate (places - fraction.length) '0' ++ fraction

namespace Numeral

variable {negative : Bool} {digits places : Nat}

theorem isProper_ofDecimal : (ofDecimal negative digits places).IsProper := by
  refine ⟨isDigits_toDigits _, fun c hc => ?_⟩
  rcases List.mem_append.1 hc with hc | hc
  · rw [List.eq_of_mem_replicate hc]
    rfl
  · exact (isDigits_toDigits _).2 c hc

theorem unsignedText_ofDecimal :
    (ofDecimal negative digits places).unsignedText = Magnitude.decimalText digits places := by
  have hne : (ofDecimal negative digits places).fraction ≠ [] := by simp [ofDecimal]
  rw [unsignedText, if_neg hne]
  rfl

theorem length_fraction_ofDecimal (h : 0 < places) :
    (ofDecimal negative digits places).fraction.length = places := by
  have hle : (Nat.toDigits 10 (digits % tenTo places)).length ≤ places :=
    (Nat.length_toDigits_le_iff (by decide) h).2 (Nat.mod_lt _ (tenTo_pos places))
  simp only [ofDecimal, List.length_append, List.length_replicate]
  omega

theorem ofDigitChars_ofDecimal (h : 0 < places) : Nat.ofDigitChars 10
    ((ofDecimal negative digits places).whole ++ (ofDecimal negative digits places).fraction) 0 =
      digits := by
  have hlength := @length_fraction_ofDecimal negative digits places h
  have hfraction : Nat.ofDigitChars 10 (ofDecimal negative digits places).fraction 0 =
      digits % tenTo places := by
    simp [ofDecimal, Nat.ofDigitChars_append, Nat.ofDigitChars_ten_toDigits]
  rw [Nat.ofDigitChars_append, Nat.ofDigitChars_eq_ofDigitChars_zero, hfraction, hlength]
  show 10 ^ places * Nat.ofDigitChars 10 (Nat.toDigits 10 (digits / tenTo places)) 0 + _ = _
  rw [Nat.ofDigitChars_ten_toDigits]
  exact Nat.div_add_mod digits (tenTo places)

theorem value_ofDecimal (h : 0 < places) : (ofDecimal negative digits places).value =
    .nearest negative (digits * Magnitude.unitsPerOne) (tenTo places) := by
  rw [value, ofDigitChars_ofDecimal h, length_fraction_ofDecimal h]
  rfl

end Numeral

/-! ### Numbers -/

namespace Magnitude

/-- The parts of a magnitude's text. -/
def numeral (negative : Bool) (a : Magnitude) : Numeral :=
  if a.units % unitsPerOne = 0 then ⟨negative, Nat.toDigits 10 (a.units / unitsPerOne), []⟩
  else
    let (digits, places) := a.shortestFrom 1 1073
    .ofDecimal negative digits places

variable {a : Magnitude} {negative : Bool}

theorem isProper_numeral : (a.numeral negative).IsProper := by
  unfold numeral
  split
  · exact ⟨isDigits_toDigits _, by simp⟩
  · exact Numeral.isProper_ofDecimal

theorem unsignedText_numeral : (a.numeral negative).unsignedText = a.text := by
  unfold numeral text
  split
  · simp [Numeral.unsignedText]
  · exact Numeral.unsignedText_ofDecimal

theorem negative_numeral : (a.numeral negative).negative = negative := by
  unfold numeral
  split <;> rfl

theorem value_numeral : (a.numeral negative).value = .finite negative a := by
  unfold numeral
  split
  · rename_i hwhole
    have hunits : a.units = a.units / unitsPerOne * unitsPerOne :=
      (Nat.div_mul_cancel (Nat.dvd_of_mod_eq_zero hwhole)).symm
    rw [Numeral.value, List.append_nil, Nat.ofDigitChars_ten_toDigits, ← hunits]
    have h := Binary64.nearest_units negative a Nat.one_pos
    rw [Nat.mul_one] at h
    exact h
  · obtain ⟨digits, places, heq, hpos, hreads, -⟩ := a.shortest_spec
    rw [heq]
    dsimp only
    rw [Numeral.value_ofDecimal hpos]
    exact readsBack_iff.1 hreads

/-- **No numeral with fewer decimal places is read as the magnitude.** -/
theorem length_fraction_numeral_le {n : Numeral} (h : n.value = .finite negative a) :
    (a.numeral negative).fraction.length ≤ n.fraction.length := by
  unfold numeral
  split
  · exact Nat.zero_le _
  · rename_i hwhole
    obtain ⟨digits, places, heq, hpos, -, hfewest⟩ := a.shortest_spec
    rw [heq]
    dsimp only
    rw [Numeral.length_fraction_ofDecimal hpos]
    obtain rfl : n.negative = negative := Binary64.negative_of_nearest h
    rcases Nat.eq_zero_or_pos n.fraction.length with hzero | hfraction
    · rw [Numeral.value, hzero] at h
      exact absurd (units_mod_of_nearest h) hwhole
    · have hreads := readsBack_iff.2 h
      exact Nat.le_of_not_lt fun hlt => hfewest _ _ hfraction hlt hreads

end Magnitude

namespace Binary64

/-- The parts of a finite value's text, where a zero has no sign. -/
theorem ofText?_text_of_finite (negative : Bool) (a : Magnitude) :
    Numeral.ofText? (finite negative a).text = some (a.numeral (negative && a.units != 0)) := by
  refine Numeral.ofText?_eq_some_iff.2 ⟨Magnitude.isProper_numeral, ?_⟩
  rw [Numeral.text, Magnitude.negative_numeral, Magnitude.unsignedText_numeral]
  show (if negative ∧ a.units ≠ 0 then _ else _) = _
  simp

/-- **A printed number is read back.**  The text of a finite value is a numeral: a minus sign at most,
digits, and possibly a point with more digits.  It is read as the same value, but for the negative zero,
which is printed as `0`. -/
theorem isNumeral_text_and_number?_text (negative : Bool) (a : Magnitude) :
    (finite negative a).text.isNumeral ∧
      (∃ sign whole fraction : Text, (finite negative a).text = sign ++ (whole ++ fraction) ∧
        (sign = [] ∨ sign = ['-']) ∧ IsDigits whole ∧
        (fraction = [] ∨ ∃ digits, fraction = '.' :: digits ∧ IsDigits digits)) ∧
      (finite negative .zero).text = "0".toList ∧
      (finite negative a).text.number? =
        some (if a = .zero then finite false .zero else finite negative a) := by
  have hparts := ofText?_text_of_finite negative a
  have hnumeral : (finite negative a).text.isNumeral := by
    rw [Text.isNumeral, hparts]
    rfl
  refine ⟨hnumeral, exists_parts_of_isNumeral hnumeral, ?_, ?_⟩
  · cases negative <;> rfl
  · rw [Text.number?, hparts, Option.map_some, Magnitude.value_numeral]
    by_cases h : a = .zero
    · subst h
      have hunits : Magnitude.zero.units = 0 := rfl
      rw [if_pos rfl, hunits]
      simp
    · rw [if_neg h, bne_iff_ne.2 (mt Magnitude.units_eq_zero_iff.1 h), Bool.and_true]

end Binary64

end DryRun
