import DryRun.Call
import DryRun.Proofs.Pattern.Groups
import DryRun.Proofs.Pieces

/-!
# What calls can change

Of everything that stands in a text only the calls of its functions change the bindings, and all that a
call does is to give values to parameters, one after another.  So what such an assignment keeps, all calls
together keep (`afterCalls_induction`).  In particular no name loses its value, only parameters get new
ones, and a new value stands in the text or was the value of some name before the calls
(`afterCalls_changes_only_parameters`).
-/

namespace DryRun

variable {language : Language} {b : Bindings} {t s value : Text} {m : Match}

namespace Call

variable {f : Signature} {argument text : Text} {position : Nat} {q : Parameter}

/-! ### What a call gives -/

/-- An argument is meant for a parameter, and its value stands in it. -/
theorem of_target?_eq_some (h : target? language f argument position = some (q, text)) :
    q ∈ f.parameters ∧ text <:+: argument := by
  have hvalue : ((labelled? language argument).map Prod.snd).getD argument <:+: argument := by
    cases hlabel : labelled? language argument with
    | none => exact List.infix_rfl
    | some x => exact infix_of_labelled? hlabel
  simp only [target?, Option.orElse_eq_orElse, Option.orElse_eq_or] at h
  rcases Option.or_eq_some_iff.1 h with h | ⟨-, h⟩
  · simp only [Option.bind_eq_some_iff, Option.map_eq_some_iff] at h
    obtain ⟨⟨label, value⟩, hlabel, r, hfind, heq⟩ := h
    obtain ⟨rfl, rfl⟩ := Prod.mk.inj heq
    exact ⟨List.mem_of_find?_eq_some hfind, infix_of_labelled? hlabel⟩
  · obtain ⟨r, hget, heq⟩ := Option.map_eq_some_iff.1 h
    obtain ⟨rfl, rfl⟩ := Prod.mk.inj heq
    exact ⟨List.mem_of_getElem? hget, hvalue⟩

theorem of_value?_eq_some (h : value? b s = some value) : value <:+: s ∨ b.get? s = some value := by
  unfold value? at h
  split at h
  · rename_i l hl
    obtain ⟨-, rfl⟩ := StringLiteral.plainBody?_eq_some_iff.1 h
    exact Or.inl (StringLiteral.body_isInfix hl)
  · split at h
    · obtain rfl := Option.some.inj h
      exact Or.inl List.infix_rfl
    · exact Or.inr h

theorem mem_of_callee?_eq_some {functions : List Signature} (h : callee? functions m = some f) :
    f ∈ functions := by
  simp only [callee?, Option.bind_eq_bind, Option.bind_eq_some_iff] at h
  obtain ⟨span, -, h⟩ := h
  split at h
  · cases h
  · split at h
    · cases h
    · exact List.mem_of_find?_eq_some h

/-! ### From one value to all calls -/

/-- A value that a text can give to a name: it stands there, or is the value of a name already. -/
def IsGiven (t : Text) (b : Bindings) (value : Text) : Prop :=
  value <:+: t ∨ ∃ name, b.get? name = some value

variable {P : Bindings → Prop}

/-- **What is kept when a parameter is given a value is kept by an argument.** -/
theorem applyArgument_induction (hargument : argument <:+: t)
    (hinsert : ∀ {b q value}, q ∈ f.parameters → IsGiven t b value → P b → P (b.insert q.name value))
    (hb : P b) : P (applyArgument language f b argument position) := by
  unfold applyArgument
  cases htarget : target? language f argument position with
  | none => exact hb
  | some x =>
    obtain ⟨q, text⟩ := x
    obtain ⟨hq, htext⟩ := of_target?_eq_some htarget
    dsimp only
    cases hvalue : value? b text with
    | none => exact hb
    | some value =>
      refine hinsert hq ?_ hb
      exact (of_value?_eq_some hvalue).imp (fun h => h.trans (htext.trans hargument)) fun h => ⟨text, h⟩

/-- It is kept by a call. -/
theorem applyArguments_induction {arguments : Text} (harguments : arguments <:+: t)
    (hinsert : ∀ {b q value}, q ∈ f.parameters → IsGiven t b value → P b → P (b.insert q.name value))
    (hb : P b) : P (applyArguments language f b arguments) := by
  refine List.foldlRecOn _ _ hb fun b hb a ha => ?_
  have hargument : a.1 ∈ Nesting.split false arguments := List.fst_mem_of_mem_zipIdx ha
  exact applyArgument_induction ((Nesting.infix_of_mem_split hargument).trans harguments) hinsert hb

/-- It is kept by what may be a call. -/
theorem applySite_induction (hm : m ∈ site.findAll t)
    (hinsert : ∀ {b f q value}, f ∈ signatures language t → q ∈ f.parameters → IsGiven t b value → P b →
      P (b.insert q.name value)) (hb : P b) : P (applySite language (signatures language t) b m) := by
  unfold applySite
  cases hcallee : callee? (signatures language t) m with
  | none => exact hb
  | some f =>
    cases harguments : Nesting.arguments? m.rest with
    | none => exact hb
    | some x =>
      have hstands : x.1 <:+: t := (Nesting.arguments?_isPrefix harguments).isInfix.trans
        (Pattern.rest_suffix_of_mem_findAll hm).isInfix
      exact applyArguments_induction hstands (hinsert (mem_of_callee?_eq_some hcallee)) hb

/-- **It is kept by all calls of a text.** -/
theorem afterCalls_induction
    (hinsert : ∀ {b f q value}, f ∈ signatures language t → q ∈ f.parameters → IsGiven t b value → P b →
      P (b.insert q.name value)) (hb : P b) : P (b.afterCalls language t) := by
  unfold Bindings.afterCalls
  dsimp only
  by_cases hnone : (signatures language t).isEmpty
  · rwa [if_pos hnone]
  · rw [if_neg hnone]
    exact List.foldlRecOn _ _ hb fun b hb m hm => applySite_induction hm hinsert hb

end Call

/-! ### The frame of calls -/

namespace Bindings

theorem contains_insert (name value : Text) {other : Text} (h : b.contains other) :
    (b.insert name value).contains other := by
  rw [contains_eq_isSome_get?] at h ⊢
  rw [get?_insert]
  split <;> simp [h]

/-- What calls in a text leave as it is, from the bindings before them to those after them. -/
structure Frame (language : Language) (t : Text) (b b' : Bindings) : Prop where
  bound : ∀ name, b.contains name → b'.contains name
  others : ∀ name, (∀ f ∈ signatures language t, ∀ q ∈ f.parameters, q.name ≠ name) →
    b'.get? name = b.get? name
  given : ∀ name value, b'.get? name = some value → Call.IsGiven t b value

theorem Frame.refl (language : Language) (t : Text) (b : Bindings) : Frame language t b b where
  bound _ h := h
  others _ _ := rfl
  given name _ h := Or.inr ⟨name, h⟩

theorem Frame.insert {b' : Bindings} {f : Signature} {q : Parameter} (h : Frame language t b b')
    (hf : f ∈ signatures language t) (hq : q ∈ f.parameters) (hvalue : Call.IsGiven t b' value) :
    Frame language t b (b'.insert q.name value) where
  bound name hname := contains_insert q.name value (h.bound name hname)
  others name hname := by
    rw [get?_insert, if_neg (hname f hf q hq)]
    exact h.others name hname
  given name v hv := by
    rw [get?_insert] at hv
    split at hv
    · obtain rfl := Option.some.inj hv
      -- the value of a name after some calls was given to it by these
      rcases hvalue with hstands | ⟨other, hother⟩
      · exact Or.inl hstands
      · exact h.given other _ hother
    · exact h.given name v hv

theorem frame_afterCalls (language : Language) (t : Text) (b : Bindings) :
    Frame language t b (b.afterCalls language t) :=
  Call.afterCalls_induction (fun hf hq hvalue h => h.insert hf hq hvalue) (Frame.refl language t b)

/-- **Calls change parameters only.**  A name that is bound stays bound; a name that is no parameter of a
function of the text has the value it had before, or still none; and a value that is not the one before
stands in the text or is a value of some name before the calls. -/
theorem afterCalls_changes_only_parameters (language : Language) (t : Text) (b : Bindings) :
    (∀ name, b.contains name → (b.afterCalls language t).contains name) ∧
    (∀ name, (∀ f ∈ signatures language t, ∀ q ∈ f.parameters, q.name ≠ name) →
      (b.afterCalls language t).get? name = b.get? name) ∧
    ∀ name, (b.afterCalls language t).get? name ≠ b.get? name →
      ∃ value, (b.afterCalls language t).get? name = some value ∧
        (value <:+: t ∨ ∃ other, b.get? other = some value) := by
  have hframe := frame_afterCalls language t b
  refine ⟨hframe.bound, hframe.others, fun name hchanged => ?_⟩
  cases hvalue : (b.afterCalls language t).get? name with
  | some value => exact ⟨value, rfl, hframe.given name value hvalue⟩
  | none =>
    -- a name without a value had none before
    have hnone : b.get? name = none := by
      have hbound := hframe.bound name
      simp only [contains_eq_isSome_get?, hvalue] at hbound
      cases hold : b.get? name with
      | none => rfl
      | some value => exact absurd (hbound (by simp [hold])) (by simp)
    exact absurd (hvalue.trans hnone.symm) hchanged

/-- A header, a method, a function that the text does not define and a call that is not closed change
nothing; the call between them gives a parameter the value of a name that is no parameter. -/
theorem afterCalls_changes_only_parameters_kotlin :
    let t := "fun f(a: Int, c: Int) { }\nobj.f(9)\ng(8)\nf(n, \"x\")\nf(7, a".toList
    let b := ((∅ : Bindings).insert "n".toList ['1']).insert "a".toList ['0']
    (b.afterCalls .kotlin t).get? "a".toList ≠ b.get? "a".toList ∧
      (∃ value, (b.afterCalls .kotlin t).get? "a".toList = some value ∧
        (value <:+: t ∨ ∃ other, b.get? other = some value)) ∧
      (b.afterCalls .kotlin t).get? "n".toList = b.get? "n".toList ∧
      (b.afterCalls .kotlin t).contains "a".toList := by
  intro t b
  have hchanged : (b.afterCalls .kotlin t).get? "a".toList ≠ b.get? "a".toList := by decide
  obtain ⟨hbound, hothers, hgiven⟩ := afterCalls_changes_only_parameters .kotlin t b
  exact ⟨hchanged, hgiven _ hchanged, hothers _ (by decide), hbound _ (by decide)⟩

end Bindings

end DryRun
