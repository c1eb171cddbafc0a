import Mathlib.Data.Char
import Mathlib.Tactic.SplitIfs
import DryRun.Text

/-!
# The order of texts by their bytes

Texts in the order of their characters are also in the order of the bytes of their UTF-8 forms
(`utf8_lt_of_compare`): of two characters the smaller one has the smaller form, and neither form is the
beginning of the other (`utf8_char_lt`).
-/

namespace DryRun.Text

/-- The bytes of a text in UTF-8. -/
def utf8 (t : Text) : List UInt8 := t.flatMap String.utf8EncodeChar

theorem utf8_cons (c : Char) (t : Text) : utf8 (c :: t) = String.utf8EncodeChar c ++ utf8 t :=
  List.flatMap_cons

/-- Of two numbers with four digits to the base 64, the first digit in which they differ decides. -/
theorem digits_lt {m n : Nat} (h : m < n) : m / 262144 < n / 262144 ∨ m / 262144 = n / 262144 ∧
    (m / 4096 % 64 < n / 4096 % 64 ∨ m / 4096 % 64 = n / 4096 % 64 ∧
      (m / 64 % 64 < n / 64 % 64 ∨ m / 64 % 64 = n / 64 % 64 ∧ m % 64 < n % 64)) := by
  have h₁ : m / 262144 ≤ n / 262144 := Nat.div_le_div_right (Nat.le_of_lt h)
  have h₂ : m / 4096 ≤ n / 4096 := Nat.div_le_div_right (Nat.le_of_lt h)
  have h₃ : m / 64 ≤ n / 64 := Nat.div_le_div_right (Nat.le_of_lt h)
  omega

/-- The form of a smaller character is smaller, whatever follows. -/
theorem utf8_char_lt {c d : Char} (h : c < d) (s t : List UInt8) :
    String.utf8EncodeChar c ++ s < String.utf8EncodeChar d ++ t := by
  have hlt : c.val.toNat < d.val.toNat := h
  have hbound : d.val.toNat < 0x110000 := by
    rcases d.valid with hd | hd <;> omega
  have hdigits := digits_lt hlt
  simp only [String.utf8EncodeChar]
  -- forms of different lengths differ in their first bytes
  split_ifs <;> simp (disch := omega) only [List.cons_append, List.nil_append, List.cons_lt_cons_iff,
    UInt8.lt_iff_toNat_lt, ← UInt8.toNat_inj, UInt8.toNat_ofNat', Nat.reducePow, Nat.mod_eq_of_lt]
  all_goals omega

theorem utf8_cons_ne_nil (c : Char) (t : Text) : utf8 (c :: t) ≠ [] := by
  simp [utf8_cons, String.utf8EncodeChar_ne_nil]

/-- **Texts in the order of their characters are in the order of their bytes.** -/
theorem utf8_lt_of_compare : ∀ {s t : Text}, compare s t = .lt → s.utf8 < t.utf8
  | [], [], h => by cases h
  | [], d :: t, _ => by
    obtain ⟨byte, bytes, h⟩ := List.exists_cons_of_ne_nil (utf8_cons_ne_nil d t)
    rw [h]
    exact List.nil_lt_cons byte bytes
  | c :: s, [], h => by cases h
  | c :: s, d :: t, h => by
    rw [List.compare_eq_compareLex, List.compareLex_cons_cons, ← List.compare_eq_compareLex,
      Ordering.then_eq_lt] at h
    rw [utf8_cons, utf8_cons]
    rcases h with h | ⟨h, htail⟩
    · exact utf8_char_lt (compare_lt_iff_lt.mp h) _ _
    · obtain rfl := Std.LawfulEqCmp.eq_of_compare h
      exact List.append_left_lt (utf8_lt_of_compare htail)

end DryRun.Text
