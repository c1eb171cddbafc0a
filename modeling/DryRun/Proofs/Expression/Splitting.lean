import DryRun.Proofs.Expression.Cutting
import DryRun.Proofs.Expression.Joining

/-!
# Joinings with a part that stands for nothing

An expression is split at the plus signs outside quotes, and this is the only way to split it
(`partsFrom_eq_iff`).  A calculation splits it otherwise, at its first operation and whatever the quotes;
but if it has a result, then its two operands are the parts (`stands_of_calculate?`).  So an expression
with such a plus sign comes to something exactly if all its parts do, and otherwise it is left as it is
(`eval?_eq_none_iff_and_eval_eq_trim`).
-/

namespace DryRun.Expression

open Unicode

variable {b : Bindings} {t u v p r : Text} {ps : List Text} {quote : Option Char}

/-! ### Splitting -/

/-- The quote that is open behind a character, if `quote` is open before it. -/
def quoteStep (quote : Option Char) (c : Char) : Option Char :=
  match quote with
  | some q => if c = q then none else some q
  | none => if c = '"' ∨ c = '\'' then some c else none

/-- The quote that is open at the end of a text, if `quote` is open at its beginning. -/
def quoteAfter (quote : Option Char) (t : Text) : Option Char := t.foldl quoteStep quote

theorem quoteAfter_append (quote : Option Char) (u v : Text) :
    quoteAfter quote (u ++ v) = quoteAfter (quoteAfter quote u) v := List.foldl_append

/-- Whether all plus signs in a text stand in quotes. -/
def IsUnbroken (quote : Option Char) (p : Text) : Prop :=
  ∀ w w', p = w ++ '+' :: w' → quoteAfter quote w ≠ none

/-- `Splits t ps` tells that `ps` are the stretches of `t` between the plus signs outside quotes. -/
inductive Splits : Text → List Text → Prop where
  | last {p : Text} (hp : IsUnbroken none p) : Splits p [p]
  | plus {p t : Text} {ps : List Text} (hp : IsUnbroken none p) (hclosed : quoteAfter none p = none)
      (ht : Splits t ps) : Splits (p ++ '+' :: t) (p :: ps)

theorem isUnbroken_of_notMem (hp : '+' ∉ p) : IsUnbroken quote p := by
  rintro w w' rfl
  exact absurd (by simp) hp

theorem isUnbroken_nil : IsUnbroken quote [] := isUnbroken_of_notMem List.not_mem_nil

theorem IsUnbroken.tail {c : Char} (h : IsUnbroken quote (c :: p)) :
    IsUnbroken (quoteStep quote c) p := by
  rintro w w' rfl
  exact h (c :: w) w' rfl

theorem isUnbroken_singleton {c : Char} (hc : c = '+' → quote ≠ none) : IsUnbroken quote [c] := by
  intro w w' h
  cases w with
  | nil => exact hc (List.cons.inj h).1
  | cons d w => simp at h

theorem IsUnbroken.append (hp : IsUnbroken quote p) (hr : IsUnbroken (quoteAfter quote p) r) :
    IsUnbroken quote (p ++ r) := by
  intro w w' h
  rcases List.append_eq_append_iff.1 h with ⟨u, rfl, hu⟩ | ⟨u, rfl, hu⟩
  · have hafter := hr u w' hu
    rwa [quoteAfter_append]
  · cases u with
    | nil =>
      have hafter := hr [] w' hu.symm
      simpa [quoteAfter] using hafter
    | cons c u =>
      obtain ⟨rfl, -⟩ := List.cons_eq_cons.1 hu
      exact hp w u rfl

/-- A character that does not break a text goes with the part it stands in. -/
theorem partsFrom_cons {c : Char} (h : c = '+' → quote ≠ none) (t : Text) :
    partsFrom quote (c :: t) = (partsFrom (quoteStep quote c) t).modifyHead (c :: ·) := by
  cases quote with
  | some q => rfl
  | none =>
    have hc : c ≠ '+' := fun hplus => h hplus rfl
    rw [partsFrom, quoteStep]
    simp only [if_neg hc]
    split <;> rfl

theorem partsFrom_append (hp : IsUnbroken quote p) (t : Text) :
    partsFrom quote (p ++ t) = (partsFrom (quoteAfter quote p) t).modifyHead (p ++ ·) := by
  induction p generalizing quote with
  | nil => rw [List.nil_append, modifyHead_nil_append, quoteAfter, List.foldl_nil]
  | cons c p ih =>
    have hc : c = '+' → quote ≠ none := fun hplus => hp [] p (by rw [hplus]; rfl)
    rw [List.cons_append, partsFrom_cons hc, ih hp.tail, List.modifyHead_modifyHead]
    rfl

theorem partsFrom_of_isUnbroken (hp : IsUnbroken quote p) : partsFrom quote p = [p] := by
  have h := partsFrom_append hp []
  rwa [List.append_nil, partsFrom, List.modifyHead_cons, List.append_nil] at h

theorem Splits.partsFrom_eq (h : Splits t ps) : partsFrom none t = ps := by
  induction h with
  | last hp => exact partsFrom_of_isUnbroken hp
  | plus hp hclosed ht ih =>
    have huncut : IsUncut _ := fun s => hclosed ▸ partsFrom_append hp s
    rw [partsFrom_append_plus huncut, ih]

/-- A text is split behind any stretch that has no plus sign outside quotes. -/
theorem splits_append (hp : IsUnbroken none p) (t : Text) :
    Splits (p ++ t) ((partsFrom (quoteAfter none p) t).modifyHead (p ++ ·)) := by
  induction t generalizing p with
  | nil =>
    rw [partsFrom, List.modifyHead_cons]
    simpa using Splits.last hp
  | cons c t ih =>
    by_cases hbreak : c = '+' ∧ quoteAfter none p = none
    · obtain ⟨rfl, hclosed⟩ := hbreak
      have hparts : partsFrom none ('+' :: t) = [] :: partsFrom none t := by simp [partsFrom]
      have hrest : Splits ([] ++ t) ((partsFrom none t).modifyHead ([] ++ ·)) := ih isUnbroken_nil
      rw [List.nil_append, modifyHead_nil_append] at hrest
      rw [hclosed, hparts, List.modifyHead_cons, List.append_nil]
      exact .plus hp hclosed hrest
    · have hc : c = '+' → quoteAfter none p ≠ none := fun hplus hclosed => hbreak ⟨hplus, hclosed⟩
      have hrest := ih (hp.append (isUnbroken_singleton hc))
      rw [partsFrom_cons hc, List.modifyHead_modifyHead]
      simpa [quoteAfter, Function.comp_def] using hrest

/-- **The parts are the stretches between the plus signs outside quotes.** -/
theorem partsFrom_eq_iff : partsFrom none t = ps ↔ Splits t ps := by
  refine ⟨?_, Splits.partsFrom_eq⟩
  rintro rfl
  have h : Splits ([] ++ t) ((partsFrom none t).modifyHead ([] ++ ·)) := splits_append isUnbroken_nil t
  rwa [List.nil_append, modifyHead_nil_append] at h

/-! ### White space around the text -/

theorem quoteAfter_of_isBlank (hu : Text.isBlank u) : quoteAfter none u = none := by
  induction u with
  | nil => rfl
  | cons c u ih =>
    have hc : c ≠ '"' ∧ c ≠ '\'' := by
      constructor <;> rintro rfl <;> exact Text.notMem_of_isBlank hu (by decide) List.mem_cons_self
    have hstep : quoteStep none c = none := by simp [quoteStep, hc]
    simp only [Text.isBlank, List.all_cons, Bool.and_eq_true] at hu
    rw [quoteAfter, List.foldl_cons, hstep]
    exact ih hu.2

theorem isUnbroken_of_isBlank (hu : Text.isBlank u) : IsUnbroken quote u :=
  isUnbroken_of_notMem (Text.notMem_of_isBlank hu (by decide))

theorem Splits.blank_append (h : Splits t ps) (hu : Text.isBlank u) :
    ∃ qs, Splits (u ++ t) qs ∧ qs.map Text.trim = ps.map Text.trim := by
  have hfirst : ∀ {p}, IsUnbroken none p → IsUnbroken none (u ++ p) := fun hp =>
    (isUnbroken_of_isBlank hu).append ((quoteAfter_of_isBlank hu).symm ▸ hp)
  cases h with
  | last hp => exact ⟨_, .last (hfirst hp), by simp [Text.trim_blank_append hu]⟩
  | @plus p t ps hp hclosed ht =>
    have hafter : quoteAfter none (u ++ p) = none := by
      rw [quoteAfter_append, quoteAfter_of_isBlank hu, hclosed]
    have h := Splits.plus (hfirst hp) hafter ht
    rw [List.append_assoc] at h
    exact ⟨_, h, by simp [Text.trim_blank_append hu]⟩

theorem Splits.append_blank (h : Splits t ps) (hu : Text.isBlank u) :
    ∃ qs, Splits (t ++ u) qs ∧ qs.map Text.trim = ps.map Text.trim := by
  induction h with
  | last hp =>
    exact ⟨_, .last (hp.append (isUnbroken_of_isBlank hu)), by simp [Text.trim_append_blank _ hu]⟩
  | plus hp hclosed ht ih =>
    obtain ⟨qs, hqs, hmap⟩ := ih
    have h := Splits.plus hp hclosed hqs
    rw [← List.cons_append, ← List.append_assoc] at h
    exact ⟨_, h, by simp [hmap]⟩

/-- A text is split like what is left of it when it is trimmed. -/
theorem map_trim_partsFrom_trim (t : Text) :
    (partsFrom none t.trim).map Text.trim = (partsFrom none t).map Text.trim := by
  obtain ⟨lead, trail, ht, hlead, htrail⟩ := Text.exists_trim t
  obtain ⟨qs, hqs, hback⟩ := (partsFrom_eq_iff.1 rfl : Splits t.trim _).append_blank htrail
  obtain ⟨rs, hrs, hfront⟩ := hqs.blank_append hlead
  rw [← ht] at hrs
  rw [hrs.partsFrom_eq, hfront, hback]

/-! ### Parts that stand for something -/

/-- Whether a text stands between equal quotes, whatever is in it, or is a bound name or a numeral. -/
def Stands (b : Bindings) (p : Text) : Prop :=
  (∃ q v, (q = '"' ∨ q = '\'') ∧ p = q :: (v ++ [q])) ∨ (∃ v, b.get? p = some v) ∨ p.isNumeral

theorem partValue?_eq_none_iff : partValue? b p = none ↔ ¬ Stands b p := by
  have hquoted : ∀ q, p.unwrap? q = none ↔ ¬ ∃ v, p = q :: (v ++ [q]) := by
    intro q
    simp only [Option.eq_none_iff_forall_ne_some, ne_eq, Text.unwrap?_eq_some_iff, not_exists]
  have hbound : b.get? p = none ↔ ¬ ∃ v, b.get? p = some v := by
    simp only [Option.eq_none_iff_forall_ne_some, ne_eq, not_exists]
  have hnumeral : (if p.isNumeral then some p else none) = none ↔ ¬ p.isNumeral := by simp
  have hstands : Stands b p ↔ (∃ v, p = '"' :: (v ++ ['"'])) ∨ (∃ v, p = '\'' :: (v ++ ['\''])) ∨
      (∃ v, b.get? p = some v) ∨ p.isNumeral := by
    simp [Stands, or_and_right, exists_or, or_assoc]
  simp only [partValue?, Option.orElse_eq_orElse, Option.orElse_eq_or, Option.or_eq_none_iff,
    hquoted, hbound, hnumeral, hstands, not_or]

theorem mapM_eq_none_iff {f : Text → Option Text} : ps.mapM f = none ↔ ∃ p ∈ ps, f p = none := by
  induction ps with
  | nil => simp
  | cons p ps ih =>
    rw [List.mapM_cons]
    cases hp : f p with
    | none => simp [hp]
    | some v => cases hps : ps.mapM f <;> simp_all

theorem join?_eq_none_iff (hplus : '+' ∈ t) :
    join? b t = none ↔ ∃ p ∈ (partsFrom none t).map Text.trim, ¬ Stands b p := by
  have hcontains : t.contains '+' := by simpa using hplus
  have hread : ((partsFrom none t).mapM fun p => partValue? b p.trim) =
      ((partsFrom none t).map Text.trim).mapM (partValue? b) := by
    rw [List.mapM_map]
    rfl
  rw [join?, if_pos hcontains, Option.map_eq_none_iff, hread, mapM_eq_none_iff]
  simp only [partValue?_eq_none_iff]

/-- A text with several parts has a plus sign in it. -/
theorem mem_plus_of_parts (h : 2 ≤ (partsFrom quote t).length) : '+' ∈ t := by
  refine Decidable.byContradiction fun hplus => ?_
  rw [partsFrom_of_isUnbroken (isUnbroken_of_notMem hplus)] at h
  exact absurd h (by simp)

/-! ### Calculations -/

theorem of_operand? (hb : ∀ x v, b.get? x = some v → x.isName) {x : Binary64}
    (h : operand? b p = some x) : p.IsTrimmed ∧ Stands b p := by
  rw [operand?, Option.orElse_eq_orElse, Option.orElse_eq_or, Option.or_eq_some_iff] at h
  rcases h with h | ⟨-, h⟩
  · obtain ⟨n, hn, -⟩ := Option.map_eq_some_iff.1 h
    have hnumeral : p.isNumeral := Option.isSome_of_mem hn
    exact ⟨isTrimmed_of_isNumeral hnumeral, Or.inr (Or.inr hnumeral)⟩
  · obtain ⟨v, hv, -⟩ := Option.bind_eq_some_iff.1 h
    exact ⟨Text.isTrimmed_of_isName (hb p v hv), Or.inr (Or.inl ⟨v, hv⟩)⟩

theorem notMem_of_operand? (hb : ∀ x v, b.get? x = some v → x.isName) {x : Binary64}
    (h : operand? b p = some x) : ∀ c ∈ ['"', '\'', '+'], c ∉ p := by
  intro c hc hmem
  rw [operand?_eq_none hb (by simpa using hc) hmem] at h
  cases h

/-- **If a calculation has a result, its operands are the parts.** -/
theorem stands_of_calculate? (hb : ∀ x v, b.get? x = some v → x.isName)
    (hparts : 2 ≤ (partsFrom none t).length) (h : calculate? b t = some r) :
    ∀ p ∈ (partsFrom none t).map Text.trim, Stands b p := by
  simp only [calculate?, Option.bind_eq_bind, Option.bind_eq_some_iff, Prod.exists] at h
  obtain ⟨left, op, right, hcut, x, hx, y, hy, -⟩ := h
  obtain ⟨u, s, v, rfl, hop, rfl, rfl⟩ := exists_of_cut hcut
  obtain rfl := Operation.eq_sign_of_ofText? hop
  obtain ⟨hleft, hu⟩ := of_operand? hb hx
  obtain ⟨hright, hv⟩ := of_operand? hb hy
  have hblank : ∀ c ∈ ['"', '\'', '+'], isWhiteSpace c = false := by decide
  have hnotu : ∀ c ∈ ['"', '\'', '+'], c ∉ u :=
    fun c hc hmem => notMem_of_operand? hb hx c hc (Text.mem_trimEnd hmem (hblank c hc))
  have hnotv : ∀ c ∈ ['"', '\'', '+'], c ∉ v :=
    fun c hc hmem => notMem_of_operand? hb hy c hc (Text.mem_trimStart hmem (hblank c hc))
  have huncut : ∀ {w : Text}, (∀ c ∈ ['"', '\'', '+'], c ∉ w) → IsUncut w := fun hw =>
    isUncut_of_forall fun c hc => by
      refine ⟨?_, ?_, ?_⟩ <;> rintro rfl <;> exact hw _ (by simp) hc
  by_cases hadd : op = .add
  · subst hadd
    rw [Operation.sign, partsFrom_append_plus (huncut hnotu), partsFrom_of_isUncut (huncut hnotv),
      List.map_cons, List.map_singleton, ← Text.trim_trimEnd u, ← Text.trim_trimStart v,
      hleft.trim_eq, hright.trim_eq, List.forall_mem_cons, List.forall_mem_singleton]
    exact ⟨hu, hv⟩
  · -- any other operation leaves the text without a plus sign
    have hsign : '+' ≠ op.sign := by
      cases op with
      | add => exact absurd rfl hadd
      | sub | mul | div => decide
    exact absurd (mem_plus_of_parts hparts) (by simp [hnotu, hnotv, hsign])

/-! ### The expression -/

/-- **An expression with a plus sign outside quotes comes to something exactly if all its parts stand
for something**, and otherwise it is left as it is, whatever the other parts are. -/
theorem eval?_eq_none_iff_and_eval_eq_trim (hb : ∀ x v, b.get? x = some v → x.isName)
    (hsign : ¬ HasEqualitySign t) (hps : Splits t ps) (hlen : 2 ≤ ps.length) :
    (eval? b t = none ↔ ∃ p ∈ ps.map Text.trim, ¬ Stands b p) ∧
      ((∃ p ∈ ps.map Text.trim, ¬ Stands b p) → eval b t = t.trim) := by
  obtain rfl := hps.partsFrom_eq
  have htrim := map_trim_partsFrom_trim t
  have hlen' : 2 ≤ (partsFrom none t.trim).length := by
    rwa [← List.length_map (f := Text.trim), htrim, List.length_map]
  have hcompare : compare? b t.trim = none := compare?_eq_none fun h =>
    hsign (h.imp (·.trans (Text.trim_isInfix t)) (·.trans (Text.trim_isInfix t)))
  have hjoin := join?_eq_none_iff (b := b) (mem_plus_of_parts hlen')
  have hnone : eval? b t = none ↔ ∃ p ∈ (partsFrom none t).map Text.trim, ¬ Stands b p := by
    rw [← htrim, ← hjoin, eval?, hcompare]
    cases hcalculate : calculate? b t.trim with
    | none => rfl
    | some r =>
      -- where there is a calculation, its operands are the parts, and both stand for something
      have hjoined : join? b t.trim ≠ none := fun hnone => by
        obtain ⟨p, hp, hstands⟩ := hjoin.1 hnone
        exact hstands (stands_of_calculate? hb hlen' hcalculate p hp)
      simp [hjoined]
  refine ⟨hnone, fun h => ?_⟩
  rw [eval, hnone.2 h, Option.getD_none]

/-- A product is no part that stands for something, whatever the name and the literal before it are. -/
theorem eval_part_product :
    let b := (∅ : Bindings).insert "total".toList "1".toList
    let t := " total + 'a+b' +2*3".toList
    let ps := [" total ".toList, " 'a+b' ".toList, "2*3".toList]
    (∀ x v, b.get? x = some v → x.isName) ∧ ¬ HasEqualitySign t ∧ Splits t ps ∧
      "2*3".toList ∈ ps.map Text.trim ∧ ¬ Stands b "2*3".toList ∧ eval? b t = none ∧
      eval b t = "total + 'a+b' +2*3".toList := by
  intro b t ps
  have hb : ∀ x v, b.get? x = some v → x.isName :=
    (Bindings.bindsNames_empty.insert (by decide) (by rintro _ ⟨⟩; rfl) _).isName
  have hsign : ¬ HasEqualitySign t := fun h => absurd (mem_of_hasEqualitySign h) (by decide)
  have hps : Splits t ps := partsFrom_eq_iff.1 (by decide)
  have hmem : "2*3".toList ∈ ps.map Text.trim := by decide
  have hstands : ¬ Stands b "2*3".toList := by
    rintro (⟨q, v, hq, h⟩ | ⟨v, hv⟩ | hnumeral)
    · obtain ⟨rfl, -⟩ := List.cons_eq_cons.1 h
      exact absurd hq (by decide)
    · exact absurd (hb _ v hv) (by decide)
    · exact absurd hnumeral (by decide)
  obtain ⟨hnone, heval⟩ := eval?_eq_none_iff_and_eval_eq_trim hb hsign hps (by decide)
  exact ⟨hb, hsign, hps, hmem, hstands, hnone.2 ⟨_, hmem, hstands⟩, heval ⟨_, hmem, hstands⟩⟩

end DryRun.Expression
