import DryRun.Declaration
import DryRun.Proofs.CallSites

/-!
# When no name is bound

Declarations and calls only ever add bindings.  So after a series of them no name is bound exactly if
none was bound before and none of them binds one: there is no declaration (`isEmpty_declared_iff`),
and no call site gives a parameter a value (`isEmpty_afterCalls_iff`).
-/

namespace DryRun

namespace Bindings

theorem isEmpty_iff {b : Bindings} : b.isEmpty ↔ ∀ name, b.get? name = none := by
  simp only [isEmpty, get?, Std.TreeMap.isEmpty_iff_forall_contains,
    Std.TreeMap.contains_eq_isSome_getElem?, Option.isSome_eq_false_iff, Option.isNone_iff_eq_none]

@[simp] theorem isEmpty_empty : (∅ : Bindings).isEmpty := isEmpty_iff.2 get?_empty

@[simp] theorem isEmpty_insert (b : Bindings) (name value : Text) :
    (b.insert name value).isEmpty = false := Std.TreeMap.isEmpty_insert

@[simp] theorem isEmpty_insertIfNew (b : Bindings) (name value : Text) :
    (b.insertIfNew name value).isEmpty = false := by
  unfold insertIfNew
  split
  · rename_i h
    exact Std.TreeMap.isEmpty_eq_false_of_contains h
  · exact isEmpty_insert b name value

/-- After a series of steps no name is bound if and only if none was bound before and no step binds
one. -/
theorem isEmpty_foldl_iff {α : Type} {step : Bindings → α → Bindings} {binds : α → Prop}
    (hstep : ∀ b x, (step b x).isEmpty ↔ b.isEmpty ∧ ¬ binds x) (l : List α) (b : Bindings) :
    (l.foldl step b).isEmpty ↔ b.isEmpty ∧ ∀ x ∈ l, ¬ binds x := by
  induction l generalizing b with
  | nil => simp
  | cons x l ih => rw [List.foldl_cons, ih, hstep, List.forall_mem_cons, and_assoc]

theorem isEmpty_ofList_iff {l : List (Text × Text)} : (ofList l).isEmpty ↔ l = [] := by
  have hstep : ∀ (b : Bindings) (x : Text × Text),
      (b.insert x.1 x.2).isEmpty ↔ b.isEmpty ∧ ¬ True := by simp
  refine (isEmpty_foldl_iff hstep l ∅).trans ?_
  simp [List.eq_nil_iff_forall_not_mem]

theorem isEmpty_insertAllNew_iff {b : Bindings} {l : List (Text × Text)} :
    (b.insertAllNew l).isEmpty ↔ b.isEmpty ∧ l = [] := by
  have hstep : ∀ (b : Bindings) (x : Text × Text),
      (b.insertIfNew x.1 x.2).isEmpty ↔ b.isEmpty ∧ ¬ True := by simp
  refine (isEmpty_foldl_iff hstep l b).trans ?_
  simp [List.eq_nil_iff_forall_not_mem]

end Bindings

/-- A text declares nothing if and only if none of the three passes finds a declaration. -/
theorem isEmpty_declared_iff {language : Language} {t : Text} :
    (declared language t).isEmpty ↔
      Declaration.strings language t = [] ∧ Declaration.numbers language t = [] ∧
        Declaration.truths language t = [] := by
  rw [declared, Bindings.isEmpty_insertAllNew_iff, Bindings.isEmpty_insertAllNew_iff,
    Bindings.isEmpty_ofList_iff, and_assoc]

namespace Call

variable {language : Language} {s : Signature} {functions : List Signature}

/-- Whether an argument in some position gives a parameter a value by itself, that is, though no name
is bound: it is a plain literal or a numeral. -/
def ArgumentGives (language : Language) (s : Signature) (argument : Text) (position : Nat) : Prop :=
  ∃ p text value, target? language s argument position = some (p, text) ∧ value? ∅ text = some value

/-- Whether a function is given such an argument by what stands behind a call's parenthesis. -/
def Gives (language : Language) (s : Signature) (rest : Text) : Prop :=
  ∃ arguments after, Nesting.arguments? rest = some (arguments, after) ∧
    ∃ a ∈ (Nesting.split false arguments).zipIdx, ArgumentGives language s a.1 a.2

theorem value?_of_isEmpty {b : Bindings} (hb : b.isEmpty) (t : Text) : value? b t = value? ∅ t := by
  unfold value?
  rw [Bindings.isEmpty_iff.1 hb, Bindings.get?_empty]

theorem isEmpty_applyArgument_iff {b : Bindings} {argument : Text} {position : Nat} :
    (applyArgument language s b argument position).isEmpty ↔
      b.isEmpty ∧ ¬ ArgumentGives language s argument position := by
  unfold applyArgument ArgumentGives
  cases ht : target? language s argument position with
  | none => simp
  | some t =>
    obtain ⟨p, text⟩ := t
    cases hb : b.isEmpty with
    | false => cases hv : value? b text <;> simp [hb, hv]
    | true =>
      simp only [value?_of_isEmpty hb]
      cases hv : value? ∅ text <;> simp [hb, hv]

theorem isEmpty_applyArguments_iff {b : Bindings} {arguments : Text} :
    (applyArguments language s b arguments).isEmpty ↔
      b.isEmpty ∧ ∀ a ∈ (Nesting.split false arguments).zipIdx,
        ¬ ArgumentGives language s a.1 a.2 := by
  have hstep : ∀ (b : Bindings) (a : Text × Nat),
      (applyArgument language s b a.1 a.2).isEmpty ↔
        b.isEmpty ∧ ¬ ArgumentGives language s a.1 a.2 := fun _ _ => isEmpty_applyArgument_iff
  exact Bindings.isEmpty_foldl_iff hstep _ b

theorem isEmpty_applySite_iff {b : Bindings} {m : Match} :
    (applySite language functions b m).isEmpty ↔
      b.isEmpty ∧ ¬ ∃ s, callee? functions m = some s ∧ Gives language s m.rest := by
  unfold applySite Gives
  cases hs : callee? functions m with
  | none => simp
  | some s =>
    cases ha : Nesting.arguments? m.rest with
    | none => simp
    | some a =>
      obtain ⟨arguments, after⟩ := a
      simp [isEmpty_applyArguments_iff]

end Call

/-- After the calls in a text no name is bound if and only if none was bound before and no call site
gives a parameter of the function that it calls a value. -/
theorem isEmpty_afterCalls_iff {language : Language} {b : Bindings} {t : Text} :
    (b.afterCalls language t).isEmpty ↔
      b.isEmpty ∧ ∀ (site : Call.Site t) (s : Signature), site.Calls (signatures language t) s →
        ¬ Call.Gives language s site.rest := by
  have hstep : ∀ (b : Bindings) (m : Match),
      (Call.applySite language (signatures language t) b m).isEmpty ↔ b.isEmpty ∧
        ¬ ∃ s, Call.callee? (signatures language t) m = some s ∧ Call.Gives language s m.rest :=
    fun _ _ => Call.isEmpty_applySite_iff
  have hcalls := Bindings.isEmpty_foldl_iff hstep (Call.site.findAll t) b
  have hrest : ∀ site : Call.Site t, site.found.rest = site.rest := fun _ => rfl
  simp only [Call.forall_mem_findAll_site_iff, Call.callee?_found_iff, hrest, not_exists,
    not_and] at hcalls
  unfold Bindings.afterCalls
  cases hs : signatures language t with
  | nil =>
    -- nothing can be called
    have hnone : ∀ (site : Call.Site t) s, ¬ site.Calls [] s := fun _ _ h => nomatch h.first
    simp [hnone]
  | cons s functions =>
    rw [hs] at hcalls
    exact hcalls

end DryRun
