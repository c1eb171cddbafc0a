import DryRun.Log

/-!
# What the log tells of names

The log leaves out no value that a name gets from a declaration of a number or from a call: the bindings
after all of them are those after the insertions that the log tells of
(`Bindings.insertAllNew_eq_foldl_newAmong`, `Bindings.afterCalls_eq_foldl_gifts`).
-/

namespace DryRun

/-- Of several declarations only those count that the log tells of. -/
theorem Bindings.insertAllNew_eq_foldl_newAmong (b : Bindings) (l : List (Text × Text)) :
    b.insertAllNew l = (b.newAmong l).foldl (fun b (name, value) => b.insert name value) b := by
  induction l generalizing b with
  | nil => rfl
  | cons p l ih =>
    obtain ⟨name, value⟩ := p
    have hstep : b.insertAllNew ((name, value) :: l) = (b.insertIfNew name value).insertAllNew l := rfl
    rw [hstep, newAmong, insertIfNew]
    split
    · exact ih b
    · exact ih (b.insert name value)

namespace Call

/-- A run of steps ends where the gifts of its steps lead. -/
theorem foldl_giftsFrom {α : Type} {gifts : Bindings → α → List Gift} {step : Bindings → α → Bindings}
    (hstep : ∀ b a, step b a = (gifts b a).foldl Gift.insertInto b) (b : Bindings) (l : List α) :
    l.foldl step b = (giftsFrom gifts b l).foldl Gift.insertInto b := by
  induction l generalizing b with
  | nil => rfl
  | cons a l ih => rw [List.foldl_cons, giftsFrom, List.foldl_append, ← hstep, ih]

variable {language : Language} {s : Signature} {b : Bindings}

theorem applyArgument_eq_foldl (argument : Text) (position : Nat) :
    applyArgument language s b argument position =
      (argumentGift? language s b argument position).toList.foldl Gift.insertInto b := by
  unfold applyArgument argumentGift?
  cases target? language s argument position with
  | none => rfl
  | some target =>
    obtain ⟨p, text⟩ := target
    cases h : value? b text <;> simp [h, Gift.insertInto]

theorem applySite_eq_foldl (functions : List Signature) (m : Match) :
    applySite language functions b m = (siteGifts language functions b m).foldl Gift.insertInto b := by
  unfold applySite siteGifts
  cases callee? functions m with
  | none => rfl
  | some s =>
    cases Nesting.arguments? m.rest with
    | none => rfl
    | some list => exact foldl_giftsFrom (fun b (a : Text × Nat) => applyArgument_eq_foldl a.1 a.2) b _

end Call

/-- **The bindings after all calls are those after the gifts that the log tells of.** -/
theorem Bindings.afterCalls_eq_foldl_gifts (language : Language) (b : Bindings) (t : Text) :
    b.afterCalls language t = (Call.gifts language b t).foldl Call.Gift.insertInto b := by
  unfold afterCalls Call.gifts
  dsimp only
  split
  · rfl
  · exact Call.foldl_giftsFrom (fun b m => Call.applySite_eq_foldl _ m) b _

end DryRun
