import DryRun.Proofs.Expression.Calculation
import DryRun.Proofs.Expression.Joining

/-!
# Sums of numerals

Two numerals with a plus sign between them are added.  With three or more, what stands behind the first
sign is no number, so there is no calculation, and the numerals are joined as texts
(`eval_sumText_of_three`).  Hence a sum of numerals comes to the sum exactly if there are two of them
(`isSummed_iff`).
-/

namespace DryRun

open Unicode

/-! ### Digits put together -/

theorem ofDigitChars_lt {t : Text} (ht : ∀ c ∈ t, c.isDigit) :
    Nat.ofDigitChars 10 t 0 < 10 ^ t.length := by
  induction t with
  | nil => decide
  | cons c t ih =>
    obtain ⟨hc, ht⟩ := List.forall_mem_cons.1 ht
    have hdigit : c.toNat - '0'.toNat ≤ 9 := by
      simp only [Char.isDigit, Bool.and_eq_true, decide_eq_true_eq] at hc
      have h : c.toNat ≤ 57 := hc.2
      have hzero : '0'.toNat = 48 := rfl
      omega
    calc Nat.ofDigitChars 10 (c :: t) 0
        = 10 ^ t.length * (c.toNat - '0'.toNat) + Nat.ofDigitChars 10 t 0 := by
          rw [Nat.ofDigitChars_cons, Nat.mul_zero, Nat.zero_add, Nat.ofDigitChars_eq_ofDigitChars_zero]
      _ < 10 ^ t.length * 9 + 10 ^ t.length :=
          Nat.add_lt_add_of_le_of_lt (Nat.mul_le_mul_left _ hdigit) (ih ht)
      _ = 10 ^ (c :: t).length := by rw [List.length_cons, Nat.pow_succ, ← Nat.mul_succ]

/-- The digits of two numbers, put together, are not the digits of their sum or of anything less. -/
theorem toDigits_ne_append {d e : Text} {k : Nat} (hd : IsDigits d) (he : IsDigits e)
    (hk : k ≤ Nat.ofDigitChars 10 d 0 + Nat.ofDigitChars 10 e 0) : Nat.toDigits 10 k ≠ d ++ e := by
  intro h
  have hvalue : k = 10 ^ e.length * Nat.ofDigitChars 10 d 0 + Nat.ofDigitChars 10 e 0 := by
    rw [← Nat.ofDigitChars_eq_ofDigitChars_zero, ← Nat.ofDigitChars_append, ← h,
      Nat.ofDigitChars_ten_toDigits]
  have hlen : 0 < e.length := List.length_pos_iff.2 he.1
  -- the first digits stand for zero, so the number is too small for all the digits
  have hzero : Nat.ofDigitChars 10 d 0 = 0 := by
    have hpow : 2 ≤ 10 ^ e.length := (by decide : 2 ≤ 10 ^ 1).trans (Nat.pow_le_pow_right (by decide) hlen)
    have hmul := Nat.mul_le_mul_right (Nat.ofDigitChars 10 d 0) hpow
    omega
  have hlt : k < 10 ^ e.length := by
    rw [hvalue, hzero, Nat.mul_zero, Nat.zero_add]
    exact ofDigitChars_lt he.2
  have hle := (Nat.length_toDigits_le_iff (by decide) hlen).2 hlt
  have hpos := List.length_pos_iff.2 hd.1
  rw [h, List.length_append] at hle
  omega

theorem WholeNumeral.filter_text (n : WholeNumeral) : n.text.filter Char.isDigit = n.digits := by
  have hdigits : n.digits.filter Char.isDigit = n.digits := List.filter_eq_self.2 n.isDigits.2
  unfold text
  cases n.negative with
  | true => exact hdigits
  | false => exact hdigits

/-- **Two numerals put together are not the decimal form of their sum.** -/
theorem ofInt_add_ne_append (m n : WholeNumeral) : Text.ofInt (m.value + n.value) ≠ m.text ++ n.text := by
  intro h
  rw [← WholeNumeral.text_ofInt] at h
  have hdigits := congrArg (List.filter Char.isDigit) h
  rw [List.filter_append, WholeNumeral.filter_text, m.filter_text, n.filter_text] at hdigits
  refine toDigits_ne_append m.isDigits n.isDigits ?_ hdigits
  have hle := Int.natAbs_add_le m.value n.value
  rwa [WholeNumeral.value, WholeNumeral.value, Binary64.natAbs_signed, Binary64.natAbs_signed] at hle

namespace Expression

variable {b : Bindings} {m n : WholeNumeral} {ns : List WholeNumeral}

/-- Numerals with plus signs between them. -/
def sumText (ns : List WholeNumeral) : Text := [' ', '+', ' '].intercalate (ns.map WholeNumeral.text)

/-- Whether a sum of numerals comes to their sum or to itself, and not to the numerals put together. -/
def IsSummed (b : Bindings) (ns : List WholeNumeral) : Prop :=
  (eval b (sumText ns) = Text.ofInt (ns.map WholeNumeral.value).sum ∨ eval b (sumText ns) = sumText ns) ∧
    eval b (sumText ns) ≠ ns.flatMap WholeNumeral.text

/-! ### Two numerals -/

theorem eval_sumText_pair (b : Bindings) (hm : m.value.natAbs ≤ 2 ^ 52) (hn : n.value.natAbs ≤ 2 ^ 52) :
    eval b (sumText [m, n]) = Text.ofInt (m.value + n.value) := by
  have hoperand : ∀ n : WholeNumeral, n.value.natAbs ≤ 2 ^ 52 →
      ∃ v, operand? b n.text = some v ∧ v.IsInt n.value := by
    intro n hn
    obtain ⟨v, hv, hint⟩ := n.exists_isInt (hn.trans (by decide))
    exact ⟨v, by rw [operand?, hv]; rfl, hint⟩
  obtain ⟨v, hv, hvi⟩ := hoperand m hm
  obtain ⟨w, hw, hwj⟩ := hoperand n hn
  have hsum : (m.value + n.value).natAbs ≤ 2 ^ 53 :=
    (Int.natAbs_add_le _ _).trans ((Nat.add_le_add hm hn).trans (by decide))
  have hm := m.isNumeral_text
  have hsplit : sumText [m, n] = m.text ++ ([' '] ++ Operation.add.sign :: ([' '] ++ n.text)) := by
    simp [sumText, Operation.sign]
  have heval : eval? b (sumText [m, n]) = some (Text.ofInt (m.value + n.value)) := by
    rw [hsplit]
    exact eval?_operation (isTrimmed_of_isNumeral hm) (tail_notMem_of_isNumeral hm)
      (isTrimmed_of_isNumeral n.isNumeral_text) hv hvi hw hwj rfl hsum rfl rfl
  rw [eval, heval]
  rfl

/-! ### Three and more -/

/-- A sum of numerals as a joining. -/
def Joining.ofNumerals (n : WholeNumeral) : List WholeNumeral → Joining
  | [] => last (.numeral n.text)
  | m :: ns => plus (.numeral n.text) [' '] [' '] rfl rfl (ofNumerals m ns)

theorem Joining.parts_ofNumerals (n : WholeNumeral) (ns : List WholeNumeral) :
    (ofNumerals n ns).parts = (n :: ns).map fun n => .numeral n.text := by
  induction ns generalizing n with
  | nil => rfl
  | cons m ns ih => simp only [ofNumerals, parts, ih, List.map_cons]

theorem Joining.text_ofNumerals (n : WholeNumeral) (ns : List WholeNumeral) :
    (ofNumerals n ns).text = sumText (n :: ns) := by
  induction ns generalizing n with
  | nil => simp [ofNumerals, text, sumText, Part.text]
  | cons m ns ih =>
    simp only [ofNumerals, text, ih, sumText, List.map_cons, List.intercalate_cons_cons]
    simp [Part.text]

theorem Joining.isUsable_ofNumerals (b : Bindings) (n : WholeNumeral) (ns : List WholeNumeral) :
    ∀ p ∈ (ofNumerals n ns).parts, p.IsUsable b := by
  intro p hp
  rw [parts_ofNumerals] at hp
  obtain ⟨m, -, rfl⟩ := List.mem_map.1 hp
  exact m.isNumeral_text

/-- **Of three or more numerals the digits are put together.** -/
theorem eval_sumText_of_three (hb : b.BindsNames) (hlen : 3 ≤ ns.length) :
    eval b (sumText ns) = ns.flatMap WholeNumeral.text := by
  obtain ⟨l, m, n, ns, rfl⟩ : ∃ l m n ns', ns = l :: m :: n :: ns' := by
    match ns, hlen with
    | l :: m :: n :: ns, _ => exact ⟨l, m, n, ns, rfl⟩
  let j := Joining.ofNumerals l (m :: n :: ns)
  let rest := Joining.ofNumerals m (n :: ns)
  have hparts := Joining.isUsable_ofNumerals b l (m :: n :: ns)
  have hrest := Joining.isUsable_ofNumerals b m (n :: ns)
  have hcalculate : calculate? b j.text = none := by
    have hl := l.isNumeral_text
    have hcut : cut Operation.ofText? j.text = some (l.text, .add, rest.text) :=
      cut_operation (isTrimmed_of_isNumeral hl) (tail_notMem_of_isNumeral hl)
        (rest.isTrimmed_text hb hrest) .add rfl rfl
    -- behind the first plus sign stands another one, so that side is no number
    have hplus : '+' ∈ rest.text := rest.mem_plus_text (by simp [rest, Joining.parts_ofNumerals])
    have hoperand : operand? b rest.text = none :=
      operand?_eq_none hb.isName (Or.inr (Or.inr rfl)) hplus
    rw [calculate?, hcut]
    simp [hoperand]
  have hcompare : compare? b j.text = none := compare?_eq_none fun hsign => by
    obtain ⟨q, v, hmem, -⟩ := j.hasEqualitySign_text hb hparts hsign
    rw [Joining.parts_ofNumerals] at hmem
    obtain ⟨_, -, h⟩ := List.mem_map.1 hmem
    cases h
  have hjoin : join? b j.text = some (j.value b) :=
    j.join?_text hb hparts (by simp [j, Joining.parts_ofNumerals])
  have hvalue : j.value b = (l :: m :: n :: ns).flatMap WholeNumeral.text := by
    rw [Joining.value, Joining.parts_ofNumerals, List.flatMap_map]
    rfl
  rw [← Joining.text_ofNumerals, eval, eval?, (j.isTrimmed_text hb hparts).trim_eq, hcalculate, hcompare,
    hjoin]
  exact hvalue

/-! ### Any number of numerals -/

/-- **A sum of numerals comes to their sum exactly if there are two of them.** -/
theorem isSummed_iff (hb : b.BindsNames) (hlen : 2 ≤ ns.length)
    (hsize : ∀ n ∈ ns, n.value.natAbs ≤ 2 ^ 52) : IsSummed b ns ↔ ns.length = 2 := by
  constructor
  · intro h
    by_contra hne
    exact h.2 (eval_sumText_of_three hb (by omega))
  · intro h
    obtain ⟨m, n, rfl⟩ : ∃ m n, ns = [m, n] := by
      match ns, h with
      | [m, n], _ => exact ⟨m, n, rfl⟩
    have heval := eval_sumText_pair b (hsize m (by simp)) (hsize n (by simp))
    refine ⟨Or.inl ?_, ?_⟩
    · rw [heval]
      simp
    · rw [heval]
      simpa using ofInt_add_ne_append m n

/-- A sum with two signs next to each other. -/
theorem isSummed_pair :
    let ns : List WholeNumeral := [⟨true, "12".toList, by decide⟩, ⟨true, "007".toList, by decide⟩]
    (∅ : Bindings).BindsNames ∧ 2 ≤ ns.length ∧ (∀ n ∈ ns, n.value.natAbs ≤ 2 ^ 52) ∧
      sumText ns = "-12 + -007".toList ∧ IsSummed ∅ ns := by
  intro ns
  have hsize : ∀ n ∈ ns, n.value.natAbs ≤ 2 ^ 52 := by decide
  exact ⟨Bindings.bindsNames_empty, by decide, hsize, by decide,
    (isSummed_iff Bindings.bindsNames_empty (by decide) hsize).2 rfl⟩

/-- Of `1 + 2 + 3` the digits are put together. -/
theorem not_isSummed :
    ¬ ∀ (b : Bindings) (ns : List WholeNumeral), b.BindsNames → 2 ≤ ns.length →
      (∀ n ∈ ns, n.value.natAbs ≤ 10 ^ 6) → IsSummed b ns := by
  intro h
  let ns : List WholeNumeral :=
    [⟨false, ['1'], by decide⟩, ⟨false, ['2'], by decide⟩, ⟨false, ['3'], by decide⟩]
  have hsummed := h ∅ ns Bindings.bindsNames_empty (by decide) (by decide)
  have heval : eval ∅ (sumText ns) = "123".toList := by decide +kernel
  rw [IsSummed, heval] at hsummed
  exact absurd rfl hsummed.2

end Expression

end DryRun
