import DryRun.Output
import DryRun.Proofs.Arguments.Frame
import DryRun.Proofs.ByteOrder

/-!
# Bindings under any run of steps

A step sets a name, sets it if it is new, gives the parameters of called functions their values, or
only looks at the bindings.  After any run of steps the bindings are a finite map: each bound name
stands once in the list, in the order of bytes, with the value that is looked up, and a step changes
what it says and nothing else (`after_isFiniteMap`).
-/

namespace DryRun

namespace Bindings

variable {b : Bindings} {name value : Text}

/-! ### The list of bindings -/

theorem mem_toList_iff : (name, value) ∈ b.toList ↔ b.get? name = some value :=
  Std.TreeMap.mem_toList_iff_getElem?_eq_some

/-- The names stand in the order of their bytes in UTF-8. -/
theorem pairwise_toList (b : Bindings) : b.toList.Pairwise fun x y => x.1.utf8 < y.1.utf8 :=
  Std.TreeMap.ordered_keys_toList.imp Text.utf8_lt_of_compare

theorem nodup_toList (b : Bindings) : b.toList.Nodup := by
  refine b.pairwise_toList.imp ?_
  rintro x _ hlt rfl
  exact List.lt_irrefl _ hlt

/-- A bound name stands in the list once, with its value, and no other name does. -/
theorem filter_toList (b : Bindings) (name : Text) :
    b.toList.filter (·.1 = name) = (b.get? name).toList.map fun value => (name, value) := by
  have hmem : ∀ x, x ∈ b.toList.filter (·.1 = name) ↔
      x ∈ (b.get? name).toList.map fun value => (name, value) := by
    rintro ⟨other, value⟩
    simp only [List.mem_filter, mem_toList_iff, decide_eq_true_eq, List.mem_map, Option.mem_toList,
      Prod.mk.injEq]
    constructor
    · rintro ⟨h, rfl⟩
      exact ⟨value, h, rfl, rfl⟩
    · rintro ⟨_, h, rfl, rfl⟩
      exact ⟨h, rfl⟩
  have hnodup : ((b.get? name).toList.map fun value => (name, value)).Nodup := by
    cases b.get? name <;> simp
  -- lists without duplicates and with the same members, one entry at most
  have hperm := (List.perm_ext_iff_of_nodup (b.nodup_toList.filter _) hnodup).2 hmem
  cases hget : b.get? name with
  | none =>
    rw [hget] at hperm
    exact List.perm_nil.1 hperm
  | some value =>
    rw [hget] at hperm
    exact List.perm_singleton.1 hperm

theorem size_eq_length_toList (b : Bindings) : b.size = b.toList.length :=
  Std.TreeMap.length_toList.symm

theorem isEmpty_iff_toList_eq_nil : b.isEmpty ↔ b.toList = [] := by
  rw [← List.isEmpty_iff, toList, Std.TreeMap.isEmpty_toList, isEmpty]

/-! ### Steps -/

/-- What can be done with bindings. -/
inductive Step where
  | set (name value : Text)
  | setIfNew (name value : Text)
  | get (name : Text)
  | number (name : Text)
  | eval (expression : Text)
  | fill (language : Language) (template : Text)
  | calls (language : Language) (text : Text)

/-- What a step returns. -/
inductive Answer where
  | done
  /-- Whether a name was new. -/
  | new (isNew : Bool)
  | value (value : Option Text)
  | number (value : Option Binary64)
  | text (text : Text)

namespace Step

/-- What a step returns, and the bindings after it. -/
def run (b : Bindings) : Step → Answer × Bindings
  | set name value => (.done, b.insert name value)
  | setIfNew name value => (.new !b.contains name, b.insertIfNew name value)
  | get name => (.value (b.get? name), b)
  | number name => (.number (b.number? name), b)
  | eval expression => (.text (Expression.eval b expression), b)
  | fill language template => (.text (fillTemplate language b template), b)
  | calls language text => (.done, b.afterCalls language text)

/-- Whether a step only looks at the bindings. -/
def IsReading : Step → Prop
  | get _ | number _ | eval _ | fill _ _ => True
  | set .. | setIfNew .. | calls .. => False

end Step

/-- The bindings after a run of steps, with no name bound before. -/
def after (steps : List Step) : Bindings := steps.foldl (fun b step => (step.run b).2) ∅

/-! ### What a step keeps -/

theorem contains_insertIfNew (name value : Text) {other : Text} (h : b.contains other) :
    (b.insertIfNew name value).contains other := by
  unfold insertIfNew
  split
  · exact h
  · exact contains_insert name value h

theorem contains_foldl {α : Type} {step : Bindings → α → Bindings} {l : List α}
    (hstep : ∀ b x, b.contains name → (step b x).contains name) (h : b.contains name) :
    (l.foldl step b).contains name :=
  List.foldlRecOn (motive := fun b => b.contains name = true) l step h fun b hb x _ => hstep b x hb

theorem contains_afterCalls (language : Language) (t : Text) (h : b.contains name) :
    (b.afterCalls language t).contains name := (frame_afterCalls language t b).bound name h

/-- **A step keeps the names that are bound.** -/
theorem Step.contains_run (step : Step) (h : b.contains name) : (step.run b).2.contains name := by
  cases step with
  | set other value => exact contains_insert other value h
  | setIfNew other value => exact contains_insertIfNew other value h
  | calls language t => exact contains_afterCalls language t h
  | get | number | eval | fill => exact h

/-- So does a run of steps. -/
theorem contains_after_append (steps more : List Step) (h : (after steps).contains name) :
    (after (steps ++ more)).contains name := by
  rw [after, List.foldl_append]
  exact contains_foldl (fun _ step => step.contains_run) h

theorem Step.run_of_isReading {step : Step} (h : step.IsReading) (b : Bindings) : (step.run b).2 = b := by
  cases step <;> first | rfl | cases h

theorem Step.run_setIfNew (b : Bindings) (name value : Text) : (setIfNew name value).run b =
    if b.get? name = none then (.new true, b.insert name value) else (.new false, b) := by
  rw [run, insertIfNew, contains_eq_isSome_get?]
  cases b.get? name <;> rfl

/-- **After any run of steps the bindings are a finite map.**  Each bound name stands in the list once,
with the value that is looked up, and the names stand in the order of their bytes.  Setting a name
changes what is looked up for that name only; setting it if it is new does so exactly if it is not
bound, and says so; a reading changes nothing; and no step takes away a name. -/
theorem after_isFiniteMap (steps : List Step) :
    let b := after steps
    (b.toList.Pairwise fun x y => x.1.utf8 < y.1.utf8) ∧
    (∀ name, b.toList.filter (·.1 = name) = (b.get? name).toList.map fun value => (name, value)) ∧
    b.size = b.toList.length ∧ (b.isEmpty ↔ b.toList = []) ∧
    (∀ name value other, ((Step.set name value).run b).2.get? other =
      if name = other then some value else b.get? other) ∧
    (∀ name value, (Step.setIfNew name value).run b =
      if b.get? name = none then (.new true, ((Step.set name value).run b).2) else (.new false, b)) ∧
    (∀ step : Step, step.IsReading → (step.run b).2 = b) ∧
    ∀ more name, b.contains name → (after (steps ++ more)).contains name := by
  intro b
  exact ⟨b.pairwise_toList, b.filter_toList, b.size_eq_length_toList, isEmpty_iff_toList_eq_nil,
    get?_insert b, Step.run_setIfNew b, fun _ h => Step.run_of_isReading h b,
    fun more _ h => contains_after_append steps more h⟩

/-- A parameter is listed once, though two calls give it a value, and stays bound. -/
theorem after_isFiniteMap_calls :
    let steps : List Step := [.set "z".toList "1".toList, .setIfNew "z".toList "2".toList,
      .calls .kotlin "fun f(a: Int) { }\nf(3); f(z)".toList]
    (after steps).toList.filter (·.1 = "a".toList) = [("a".toList, "1".toList)] ∧
      (after (steps ++ [.set "b".toList "4".toList])).contains "a".toList := by
  intro steps
  obtain ⟨-, hlisted, -, -, -, -, -, hkept⟩ := after_isFiniteMap steps
  refine ⟨?_, hkept _ _ (by decide)⟩
  rw [hlisted, show (after steps).get? "a".toList = some "1".toList by decide]
  rfl

end Bindings

end DryRun
