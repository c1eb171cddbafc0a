import DryRun.Proofs.Pieces
import DryRun.Template

/-!
# What results are written with

A calculation yields a number and a comparison a truth value, which are written with letters, digits,
points and minus signs (`isResultSign`).  A joining yields pieces of the expression and values.  So any
other character of a result stands in the expression or in a value (`notMem_of_eval?`).
-/

namespace DryRun

variable {b : Bindings} {t v : Text} {c : Char}

/-- The characters of numbers and truth values. -/
def isResultSign (c : Char) : Bool := c.isAlphanum || c == '-' || c == '.'

theorem isResultSign_of_mem_toDigits {n : Nat} (h : c ∈ Nat.toDigits 10 n) : isResultSign c := by
  have hdigit : c.isDigit := Nat.isDigit_of_mem_toDigits (by decide) (by decide) h
  simp [isResultSign, Char.isAlphanum, hdigit]

theorem Magnitude.isResultSign_of_mem_text {a : Magnitude} (h : c ∈ a.text) : isResultSign c := by
  unfold text at h
  split at h
  · exact isResultSign_of_mem_toDigits h
  · simp only [decimalText, List.mem_append, List.mem_cons, List.mem_replicate] at h
    rcases h with h | rfl | ⟨-, rfl⟩ | h
    · exact isResultSign_of_mem_toDigits h
    · rfl
    · rfl
    · exact isResultSign_of_mem_toDigits h

theorem Binary64.isResultSign_of_mem_text {x : Binary64} (h : c ∈ x.text) : isResultSign c := by
  have hword : ∀ s ∈ ["NaN", "Infinity", "-Infinity"], ∀ c ∈ s.toList, isResultSign c := by decide
  unfold text at h
  split at h
  · exact hword _ (by simp) c h
  · exact hword _ (by simp) c h
  · exact hword _ (by simp) c h
  · split at h
    · rcases List.mem_cons.1 h with rfl | h
      · rfl
      · exact Magnitude.isResultSign_of_mem_text h
    · exact Magnitude.isResultSign_of_mem_text h

namespace Expression

theorem isResultSign_of_calculate? (h : calculate? b t = some v) (hc : c ∈ v) : isResultSign c := by
  simp only [calculate?, Option.bind_eq_bind, Option.bind_eq_some_iff] at h
  obtain ⟨⟨left, op, right⟩, -, x, -, y, -, h⟩ := h
  obtain rfl := Option.some.inj h
  exact Binary64.isResultSign_of_mem_text hc

theorem isResultSign_of_compare? (h : compare? b t = some v) (hc : c ∈ v) : isResultSign c := by
  have hword : ∀ s ∈ ["true", "false"], ∀ c ∈ s.toList, isResultSign c := by decide
  simp only [compare?, Option.bind_eq_bind, Option.bind_eq_some_iff] at h
  obtain ⟨⟨left, same, right⟩, -, h⟩ := h
  obtain rfl := Option.some.inj h
  split at hc
  · exact hword _ (by simp) c hc
  · exact hword _ (by simp) c hc

theorem exists_of_mem_mapM {α β : Type} {f : α → Option β} {l : List α} {r : List β} {y : β}
    (h : l.mapM f = some r) (hy : y ∈ r) : ∃ x ∈ l, f x = some y := by
  induction l generalizing r with
  | nil =>
    obtain rfl : [] = r := Option.some.inj h
    cases hy
  | cons x l ih =>
    simp only [List.mapM_cons, Option.bind_eq_bind, Option.bind_eq_some_iff] at h
    obtain ⟨z, hz, rs, hrs, h⟩ := h
    obtain rfl := Option.some.inj h
    rcases List.mem_cons.1 hy with rfl | hy
    · exact ⟨x, by simp, hz⟩
    · obtain ⟨x', hx', hvalue⟩ := ih hrs hy
      exact ⟨x', List.mem_cons_of_mem x hx', hvalue⟩

variable (hb : ∀ x w, b.get? x = some w → c ∉ w)

include hb

theorem notMem_of_partValue? (h : partValue? b t = some v) (ht : c ∉ t) : c ∉ v := by
  have hquoted : ∀ {q : Char}, t.unwrap? q = some v → c ∉ v := by
    intro q h hc
    rw [Text.unwrap?_eq_some_iff] at h
    exact ht (by rw [h]; simp [hc])
  simp only [partValue?, Option.orElse_eq_orElse, Option.orElse_eq_or, Option.or_eq_some_iff] at h
  rcases h with h | ⟨-, h | ⟨-, h | ⟨-, h⟩⟩⟩
  · exact hquoted h
  · exact hquoted h
  · exact hb t v h
  · split at h
    · exact Option.some.inj h ▸ ht
    · cases h

theorem notMem_of_join? (h : join? b t = some v) (ht : c ∉ t) : c ∉ v := by
  unfold join? at h
  split at h
  · obtain ⟨parts, hparts, rfl⟩ := Option.map_eq_some_iff.1 h
    rw [List.mem_flatten]
    rintro ⟨w, hw, hc⟩
    obtain ⟨part, hpart, hvalue⟩ := exists_of_mem_mapM hparts hw
    have hpiece : part.trim <:+: t := (Text.trim_isInfix part).trans (infix_of_mem_partsFrom hpart)
    exact notMem_of_partValue? hb hvalue (fun h => ht (hpiece.subset h)) hc
  · cases h

/-- **A character of a result that numbers and truth values are not written with stands in the
expression or in a value.** -/
theorem notMem_of_eval? (h : eval? b t = some v) (hc : isResultSign c = false) (ht : c ∉ t) : c ∉ v := by
  have htrim : c ∉ t.trim := fun h => ht ((Text.trim_isInfix t).subset h)
  simp only [eval?, Option.orElse_eq_orElse, Option.orElse_eq_or, Option.or_eq_some_iff] at h
  rcases h with h | ⟨-, h | ⟨-, h⟩⟩
  · intro hmem
    rw [isResultSign_of_calculate? h hmem] at hc
    cases hc
  · intro hmem
    rw [isResultSign_of_compare? h hmem] at hc
    cases hc
  · exact notMem_of_join? hb h htrim

end Expression

/-- The same holds of the value of a marker. -/
theorem TemplateSyntax.notMem_of_value? (hb : ∀ x w, b.get? x = some w → c ∉ w)
    (h : value? b t = some v) (hc : isResultSign c = false) (ht : c ∉ t) : c ∉ v := by
  unfold value? at h
  split at h
  · exact hb _ v h
  · exact Expression.notMem_of_eval? hb h hc fun h => ht ((Text.trim_isInfix t).subset h)

end DryRun
