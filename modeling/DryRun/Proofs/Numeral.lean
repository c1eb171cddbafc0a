import DryRun.Numeral
import DryRun.Proofs.Text

/-!
# Numerals and their parts

A text is a numeral exactly if it consists of a possible sign, ASCII digits, and possibly a point with
more digits (`exists_parts_of_isNumeral`, `isNumeral_of_parts`), and its parts are the only ones that give
the text (`Numeral.ofText?_eq_some_iff`).
-/

namespace DryRun

variable {t : Text}

/-- Whether a text is one or more ASCII digits. -/
def IsDigits (t : Text) : Prop := t ≠ [] ∧ ∀ c ∈ t, c.isDigit

theorem isDigits_iff : Numeral.isDigits t ↔ IsDigits t := by
  simp [Numeral.isDigits, IsDigits]

instance (t : Text) : Decidable (IsDigits t) := decidable_of_iff _ isDigits_iff

theorem isDigits_toDigits (n : Nat) : IsDigits (Nat.toDigits 10 n) :=
  ⟨Nat.toDigits_ne_nil, fun _ hc => Nat.isDigit_of_mem_toDigits (by decide) (by decide) hc⟩

/-! ### The text of the parts -/

namespace Numeral

/-- The text that a numeral without a sign has. -/
def unsignedText (n : Numeral) : Text :=
  n.whole ++ if n.fraction = [] then [] else '.' :: n.fraction

/-- The text that a numeral has. -/
def text (n : Numeral) : Text := if n.negative then '-' :: n.unsignedText else n.unsignedText

/-- Digits stand before the point, and only digits behind it. -/
structure IsProper (n : Numeral) : Prop where
  whole : IsDigits n.whole
  fraction : ∀ c ∈ n.fraction, c.isDigit

variable {n : Numeral} {negative : Bool}

theorem IsProper.dot_notMem (h : n.IsProper) : '.' ∉ n.whole :=
  fun hdot => absurd (h.whole.2 '.' hdot) (by decide)

theorem IsProper.head_ne (h : n.IsProper) : n.unsignedText.head? ≠ some '-' := by
  obtain ⟨c, w, hw⟩ := List.exists_cons_of_ne_nil h.whole.1
  rw [unsignedText, hw]
  rintro heq
  obtain rfl : c = '-' := Option.some.inj heq
  exact absurd (h.whole.2 '-' (by simp [hw])) (by decide)

theorem unsigned?_eq_some_iff : unsigned? negative t = some n ↔
    n.negative = negative ∧ n.IsProper ∧ t = n.unsignedText := by
  constructor
  · intro h
    unfold unsigned? at h
    split at h
    · rw [Option.ite_none_right_eq_some, isDigits_iff, Option.some.injEq] at h
      obtain ⟨hdigits, rfl⟩ := h
      exact ⟨rfl, ⟨hdigits, by simp⟩, by simp [unsignedText]⟩
    · rename_i whole fraction hsplit
      rw [Option.ite_none_right_eq_some, Bool.and_eq_true, isDigits_iff, isDigits_iff,
        Option.some.injEq] at h
      obtain ⟨⟨hwhole, hfraction⟩, rfl⟩ := h
      refine ⟨rfl, ⟨hwhole, hfraction.2⟩, ?_⟩
      rw [unsignedText, if_neg hfraction.1]
      exact Text.append_of_splitOnce hsplit
  · rintro ⟨rfl, hn, rfl⟩
    obtain ⟨s, whole, fraction⟩ := n
    by_cases hfraction : fraction = []
    · rw [unsigned?, unsignedText, if_pos hfraction, List.append_nil,
        Text.splitOnce_of_notMem hn.dot_notMem]
      simp [isDigits_iff.2 hn.whole, hfraction]
    · rw [unsigned?, unsignedText, if_neg hfraction, Text.splitOnce_append hn.dot_notMem]
      simp [isDigits_iff.2 hn.whole, isDigits_iff.2 ⟨hfraction, hn.fraction⟩]

/-- **The parts of a text are those that give the text**, so a numeral has its parts in one way. -/
theorem ofText?_eq_some_iff : ofText? t = some n ↔ n.IsProper ∧ t = n.text := by
  unfold ofText? text
  split
  · rename_i t
    rw [unsigned?_eq_some_iff]
    constructor
    · rintro ⟨hs, hn, rfl⟩
      exact ⟨hn, by rw [hs, if_pos rfl]⟩
    · rintro ⟨hn, heq⟩
      cases hs : n.negative with
      | true => exact ⟨rfl, hn, by simpa [hs] using heq⟩
      | false =>
        -- digits do not begin with the sign
        refine absurd ?_ hn.head_ne
        rw [hs, if_neg Bool.false_ne_true] at heq
        rw [← heq, List.head?_cons]
  · rename_i hsign
    rw [unsigned?_eq_some_iff]
    constructor
    · rintro ⟨hs, hn, rfl⟩
      exact ⟨hn, by rw [hs, if_neg Bool.false_ne_true]⟩
    · rintro ⟨hn, rfl⟩
      cases hs : n.negative with
      | true => exact absurd (by rw [hs, if_pos rfl]) (hsign n.unsignedText)
      | false => exact ⟨rfl, hn, by rw [if_neg Bool.false_ne_true]⟩

end Numeral

theorem isNumeral_iff : t.isNumeral ↔ ∃ n : Numeral, n.IsProper ∧ t = n.text := by
  simp only [Text.isNumeral, Option.isSome_iff_exists, Numeral.ofText?_eq_some_iff]

theorem exists_parts_of_isNumeral (h : t.isNumeral) : ∃ sign whole fraction : Text,
    t = sign ++ (whole ++ fraction) ∧ (sign = [] ∨ sign = ['-']) ∧ IsDigits whole ∧
      (fraction = [] ∨ ∃ digits, fraction = '.' :: digits ∧ IsDigits digits) := by
  obtain ⟨n, hn, rfl⟩ := isNumeral_iff.1 h
  refine ⟨if n.negative then ['-'] else [], n.whole,
    if n.fraction = [] then [] else '.' :: n.fraction, ?_, ?_, hn.whole, ?_⟩
  · cases hs : n.negative <;> simp [Numeral.text, Numeral.unsignedText, hs]
  · cases n.negative <;> simp
  · by_cases hfraction : n.fraction = []
    · exact Or.inl (if_pos hfraction)
    · exact Or.inr ⟨n.fraction, if_neg hfraction, hfraction, hn.fraction⟩

theorem forall_mem_of_isNumeral (h : t.isNumeral) : ∀ c ∈ t, c = '-' ∨ c = '.' ∨ c.isDigit := by
  obtain ⟨sign, whole, fraction, rfl, hsign, hwhole, hfraction⟩ := exists_parts_of_isNumeral h
  intro c hc
  simp only [List.mem_append] at hc
  rcases hc with hc | hc | hc
  · rcases hsign with rfl | rfl
    · cases hc
    · exact Or.inl (List.mem_singleton.1 hc)
  · exact Or.inr (Or.inr (hwhole.2 c hc))
  · rcases hfraction with rfl | ⟨digits, rfl, hdigits⟩
    · cases hc
    · rcases List.mem_cons.1 hc with rfl | hc
      · exact Or.inr (Or.inl rfl)
      · exact Or.inr (Or.inr (hdigits.2 c hc))

/-- A numeral begins with a minus sign or a digit, and no other sign stands in it but a point. -/
theorem head_of_isNumeral (h : t.isNumeral) : ∀ c ∈ t.head?, c = '-' ∨ c.isDigit := by
  obtain ⟨sign, whole, fraction, rfl, hsign, hwhole, -⟩ := exists_parts_of_isNumeral h
  obtain ⟨d, w, rfl⟩ := List.exists_cons_of_ne_nil hwhole.1
  intro c hc
  rcases hsign with rfl | rfl
  · obtain rfl : d = c := by simpa using hc
    exact Or.inr (hwhole.2 d (by simp))
  · obtain rfl : '-' = c := by simpa using hc
    exact Or.inl rfl

theorem tail_of_isNumeral (h : t.isNumeral) : ∀ c ∈ t.tail, c = '.' ∨ c.isDigit := by
  obtain ⟨sign, whole, fraction, rfl, hsign, hwhole, hfraction⟩ := exists_parts_of_isNumeral h
  have hrest : ∀ c ∈ whole ++ fraction, c = '.' ∨ c.isDigit := by
    intro c hc
    rcases List.mem_append.1 hc with hc | hc
    · exact Or.inr (hwhole.2 c hc)
    · rcases hfraction with rfl | ⟨digits, rfl, hdigits⟩
      · cases hc
      · exact (List.mem_cons.1 hc).imp_right (hdigits.2 c)
  rcases hsign with rfl | rfl
  · exact fun c hc => hrest c (List.mem_of_mem_tail hc)
  · exact hrest

/-- A name that does not begin with a digit is no numeral. -/
theorem not_isNumeral_of_isName (hname : t.isName) (hhead : ∀ c ∈ t.head?, c.isDigit = false) :
    ¬ t.isNumeral := by
  intro h
  obtain ⟨c, t, rfl⟩ := List.exists_cons_of_ne_nil (Text.forall_mem_of_isName hname).1
  rcases head_of_isNumeral h c rfl with rfl | hc
  · exact Text.notMem_of_isName hname (c := '-') (by decide) (by simp)
  · rw [hhead c rfl] at hc
    cases hc

theorem isTrimmed_of_isNumeral (h : t.isNumeral) : t.IsTrimmed := by
  have hne : t ≠ [] := by
    rintro rfl
    cases h
  refine Text.isTrimmed_of_forall hne fun c hc => ?_
  rcases forall_mem_of_isNumeral h c hc with rfl | rfl | hc
  · decide
  · decide
  · exact Unicode.isWhiteSpace_eq_false_of_isWord (by simp [Unicode.isWord, Char.isAlphanum, hc])

theorem isNumeral_of_parts {sign whole fraction : Text} (hsign : sign = [] ∨ sign = ['-'])
    (hwhole : IsDigits whole)
    (hfraction : fraction = [] ∨ ∃ digits, fraction = '.' :: digits ∧ IsDigits digits) :
    Text.isNumeral (sign ++ (whole ++ fraction)) := by
  obtain ⟨digits, hdigits, hpoint⟩ : ∃ digits : Text, (∀ c ∈ digits, c.isDigit) ∧
      fraction = if digits = [] then [] else '.' :: digits := by
    rcases hfraction with rfl | ⟨digits, rfl, hne, hdigits⟩
    · exact ⟨[], by simp, rfl⟩
    · exact ⟨digits, hdigits, (if_neg hne).symm⟩
  refine isNumeral_iff.2 ⟨⟨sign = ['-'], whole, digits⟩, ⟨hwhole, hdigits⟩, ?_⟩
  rcases hsign with rfl | rfl <;> simp [Numeral.text, Numeral.unsignedText, hpoint]

end DryRun
