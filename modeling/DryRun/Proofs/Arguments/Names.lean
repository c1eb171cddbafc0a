import DryRun.Proofs.Arguments.Literals

/-!
# Calls with names

An argument without a label may be the name of something that has a value (`Positional`).  Arguments
are read while the parameters before them are bound already, so an argument that names such a parameter
gets the new value.  All arguments reach their parameters with the values that they had before the call
exactly if no argument names an earlier parameter that the call gives another value
(`get?_applyArguments_positional_iff`).
-/

namespace DryRun.Call

open Nesting (Passes top passes_of_forall)

/-- An argument that goes by its position: a literal, or a name. -/
inductive Positional where
  | literal (l : Literal)
  | name (x : Text) (hx : x.isName) (hn : ¬ x.isNumeral)

namespace Positional

def text : Positional → Text
  | literal l => l.text
  | name x _ _ => x

/-- What an argument stands for: the value of a name is the one that it has. -/
def value? (b : Bindings) : Positional → Option Text
  | literal l => some l.value
  | name x _ _ => b.get? x

/-- The name that an argument is. -/
def name? : Positional → Option Text
  | literal _ => none
  | name x _ _ => some x

end Positional

variable {language : Language} {s : Signature} {b c : Bindings} {angle : Bool} {n v : Text}
  {a : Positional} {x : Parameter × Positional} {l : List (Parameter × Positional)}

/-! ### Single arguments -/

namespace Positional

theorem isTrimmed_text : ∀ a : Positional, a.text.IsTrimmed
  | literal l => l.isTrimmed_text
  | name _ hx _ => Text.isTrimmed_of_isName hx

theorem passes_text : ∀ a : Positional, Passes angle top a.text top
  | literal l => l.passes_text
  | name _ hx _ => passes_of_forall (by decide) (Text.forall_mem_of_isName hx).2

theorem labelled?_text : ∀ a : Positional, labelled? language a.text = none
  | literal l => l.labelled?_text
  | name _ hx _ => labelled?_of_notMem fun _ hmark => Text.notMem_of_isName hx (labelMark_apart hmark).1

theorem value?_text : ∀ a : Positional, Call.value? b a.text = a.value? b
  | literal l => l.value?_text
  | name x hx hn => by simp [Call.value?, text, value?, StringLiteral.ofText?_of_isName hx, hn]

theorem value?_of_name? (h : a.name? = some n) : a.value? b = b.get? n := by
  cases a with
  | literal l => cases h
  | name x hx hn =>
    obtain rfl : x = n := Option.some.inj h
    rfl

theorem value?_congr (h : ∀ n ∈ a.name?, b.get? n = c.get? n) : a.value? b = a.value? c := by
  cases a with
  | literal l => rfl
  | name x hx hn => exact h x rfl

end Positional

/-! ### One after another -/

/-- The bindings after a parameter has been given an argument. -/
def giveOne (b : Bindings) (x : Parameter × Positional) : Bindings :=
  (x.2.value? b).elim b (b.insert x.1.name)

/-- The bindings after parameters have been given arguments, each read in its turn. -/
def give (b : Bindings) (l : List (Parameter × Positional)) : Bindings := l.foldl giveOne b

theorem applyArguments_positional {args : List Positional} (hlen : args.length = s.parameters.length) :
    applyArguments language s b (argumentList (args.map Positional.text)) =
      give b (s.parameters.zip args) := by
  have hargs : args.map Positional.text = (s.parameters.zip args).map fun x => x.2.text := by
    conv_lhs => rw [← List.map_snd_zip (Nat.le_of_eq hlen), List.map_map]
    rfl
  rw [hargs]
  refine applyArguments_argumentList (fun x _ => ⟨x.2.isTrimmed_text, x.2.passes_text⟩) fun b k x hx => ?_
  have hp : s.parameters[k]? = some x.1 := (List.getElem?_zip_eq_some.1 hx).1
  cases hv : x.2.value? b with
  | none => simp [applyArgument, target?, x.2.labelled?_text, hp, x.2.value?_text, giveOne, hv]
  | some v =>
    rw [applyArgument_of_position x.2.labelled?_text hp (x.2.value?_text.trans hv), giveOne, hv]
    rfl

theorem get?_giveOne_self (hv : x.2.value? b = some v) : (giveOne b x).get? x.1.name = some v := by
  simp [giveOne, hv]

theorem get?_giveOne_of_ne (h : x.1.name ≠ n) : (giveOne b x).get? n = b.get? n := by
  rw [giveOne]
  cases x.2.value? b with
  | none => rfl
  | some v => exact (Bindings.get?_insert _ _ _ _).trans (if_neg h)

/-- A parameter that is given the value that it has makes no difference to other arguments, and neither
does one that they do not name. -/
theorem value?_giveOne (hv : (x.2.value? b).isSome)
    (h : a.name? = some x.1.name → x.2.value? b = b.get? x.1.name) :
    a.value? (giveOne b x) = a.value? b := by
  obtain ⟨v, hv⟩ := Option.isSome_iff_exists.1 hv
  refine Positional.value?_congr fun n hn => ?_
  by_cases hx : x.1.name = n
  · subst hx
    rw [get?_giveOne_self hv, ← hv]
    exact h hn
  · exact get?_giveOne_of_ne hx

/-- A value may be replaced, but not taken away. -/
theorem isSome_value?_giveOne (hv : (x.2.value? b).isSome) (ha : (a.value? b).isSome) :
    (a.value? (giveOne b x)).isSome := by
  by_cases h : a.name? = some x.1.name
  · obtain ⟨v, hv⟩ := Option.isSome_iff_exists.1 hv
    rw [Positional.value?_of_name? h, get?_giveOne_self hv]
    rfl
  · rwa [value?_giveOne hv fun h' => absurd h' h]

theorem get?_give_of_notMem (h : n ∉ l.map (·.1.name)) : (give b l).get? n = b.get? n := by
  induction l generalizing b with
  | nil => rfl
  | cons x l ih =>
    simp only [List.map_cons, List.mem_cons, not_or] at h
    rw [give, List.foldl_cons]
    exact (ih h.2).trans (get?_giveOne_of_ne (Ne.symm h.1))

/-- An argument with a name that is no parameter's among these gives the value that the name has. -/
theorem get?_give_of_name? (hl : (l.map (·.1.name)).Nodup) (hn : n ∉ l.map (·.1.name))
    (hv : b.get? n = some v) (hx : x ∈ l) (ha : x.2.name? = some n) :
    (give b l).get? x.1.name = some v := by
  induction l generalizing b with
  | nil => cases hx
  | cons y l ih =>
    simp only [List.map_cons, List.nodup_cons, List.mem_cons, not_or] at hl hn
    rw [give, List.foldl_cons]
    rcases List.mem_cons.1 hx with rfl | hx
    · have hvalue : x.2.value? b = some v := (x.2.value?_of_name? ha).trans hv
      exact (get?_give_of_notMem hl.1).trans (get?_giveOne_self hvalue)
    · exact ih hl.2 hn.2 ((get?_giveOne_of_ne (Ne.symm hn.1)).trans hv) hx

/-- Whether the second of two arguments does not read a value that the first has replaced. -/
def ReadsOld (b : Bindings) (x y : Parameter × Positional) : Prop :=
  y.2.name? = some x.1.name → x.2.value? b = b.get? x.1.name

/-- The parameters are given what their arguments stand for before the first of them is given anything,
exactly if no argument reads what one before it has replaced. -/
theorem get?_give_iff (hl : (l.map (·.1.name)).Nodup) (hb : ∀ x ∈ l, (x.2.value? b).isSome) :
    (∀ x ∈ l, (give b l).get? x.1.name = x.2.value? b) ↔ l.Pairwise (ReadsOld b) := by
  induction l generalizing b with
  | nil => simp
  | cons x l ih =>
    simp only [List.map_cons, List.nodup_cons] at hl
    rw [List.forall_mem_cons] at hb
    obtain ⟨hx, hb⟩ := hb
    obtain ⟨v, hv⟩ := Option.isSome_iff_exists.1 hx
    have hself : (giveOne b x).get? x.1.name = x.2.value? b := (get?_giveOne_self hv).trans hv.symm
    have hfirst : (give b (x :: l)).get? x.1.name = x.2.value? b :=
      (get?_give_of_notMem hl.1).trans hself
    have hne : ∀ y ∈ l, x.1.name ≠ y.1.name := by
      intro y hy h
      exact hl.1 (List.mem_map.2 ⟨y, hy, h.symm⟩)
    -- as long as the first step is not read, the others are as if it had not been made
    have hrest (hold : ∀ y ∈ l, ReadsOld b x y) :
        (∀ y ∈ l, (give b (x :: l)).get? y.1.name = y.2.value? b) ↔ l.Pairwise (ReadsOld b) := by
      have hih := ih hl.2 fun y hy => isSome_value?_giveOne hx (hb y hy)
      have hvalue : ∀ y ∈ l, y.2.value? (giveOne b x) = y.2.value? b := fun y hy =>
        value?_giveOne hx (hold y hy)
      have hpairs : l.Pairwise (ReadsOld (giveOne b x)) ↔ l.Pairwise (ReadsOld b) :=
        List.Pairwise.iff_of_mem fun {y z} hy _ => by
          rw [ReadsOld, ReadsOld, hvalue y hy, get?_giveOne_of_ne (hne y hy)]
      rw [← hpairs, ← hih]
      exact forall₂_congr fun y hy => by rw [hvalue y hy]; rfl
    rw [List.forall_mem_cons, List.pairwise_cons]
    constructor
    · rintro ⟨-, h⟩
      have hold : ∀ y ∈ l, ReadsOld b x y := by
        intro y hy hname
        have hgiven := get?_give_of_name? hl.2 hl.1 (hself.trans hv) hy hname
        calc x.2.value? b = some v := hv
          _ = (give b (x :: l)).get? y.1.name := hgiven.symm
          _ = y.2.value? b := h y hy
          _ = b.get? x.1.name := Positional.value?_of_name? hname
      exact ⟨hold, (hrest hold).1 h⟩
    · rintro ⟨hold, h⟩
      exact ⟨hfirst, (hrest hold).2 h⟩

/-- **Arguments are read as they are before the call, unless one names a parameter before it that is
given another value than it has.** -/
theorem get?_applyArguments_positional_iff {args : List Positional}
    (hnames : (s.parameters.map (·.name)).Nodup) (hlen : args.length = s.parameters.length)
    (hbound : ∀ a ∈ args, (a.value? b).isSome) :
    (∀ x ∈ s.parameters.zip args, (applyArguments language s b
        (argumentList (args.map Positional.text))).get? x.1.name = x.2.value? b) ↔
      (s.parameters.zip args).Pairwise (ReadsOld b) := by
  have hpairs : ((s.parameters.zip args).map (·.1.name)).Nodup := by
    rw [← List.map_fst_zip (Nat.le_of_eq hlen.symm), List.map_map] at hnames
    exact hnames
  rw [applyArguments_positional hlen]
  exact get?_give_iff hpairs fun x hx => hbound x.2 (List.of_mem_zip hx).2

/-- The third argument names the first parameter, which is given the value that it has. -/
theorem get?_applyArguments_positional_same :
    let x : Positional := .name "x".toList (by decide) (by decide)
    let y : Positional := .name "y".toList (by decide) (by decide)
    let z : Positional := .name "z".toList (by decide) (by decide)
    let s : Signature := ⟨"f".toList, ["x", "y", "z"].map fun n => ⟨some n.toList, n.toList⟩, 4⟩
    let b := (((∅ : Bindings).insert "x".toList ['1']).insert "y".toList ['1']).insert "z".toList ['2']
    (s.parameters.map (·.name)).Nodup ∧ (∀ a ∈ [y, z, x], (a.value? b).isSome) ∧
      (applyArguments .python s b "y, z, x".toList).get? "z".toList = some ['1'] := by
  intro x y z s b
  have hx : x.value? b = some ['1'] := by simp [x, b, Positional.value?, Bindings.get?_insert]
  have hy : y.value? b = some ['1'] := by simp [y, b, Positional.value?, Bindings.get?_insert]
  have hz : z.value? b = some ['2'] := by simp [z, b, Positional.value?]
  have hbound : ∀ a ∈ [y, z, x], (a.value? b).isSome := by simp [hx, hy, hz]
  have hnames : (s.parameters.map (·.name)).Nodup := by decide
  have hold : (s.parameters.zip [y, z, x]).Pairwise (ReadsOld b) := by
    have hxy : ReadsOld b (⟨some "x".toList, "x".toList⟩, y) (⟨some "y".toList, "y".toList⟩, z) :=
      fun h => absurd h (by decide)
    have hxz : ReadsOld b (⟨some "x".toList, "x".toList⟩, y) (⟨some "z".toList, "z".toList⟩, x) :=
      fun _ => hy.trans hx.symm
    have hyz : ReadsOld b (⟨some "y".toList, "y".toList⟩, z) (⟨some "z".toList, "z".toList⟩, x) :=
      fun h => absurd h (by decide)
    simpa [s] using ⟨⟨hxy, hxz⟩, hyz⟩
  have h : ∀ p ∈ s.parameters.zip [y, z, x],
      (applyArguments .python s b (argumentList ([y, z, x].map Positional.text))).get? p.1.name =
        p.2.value? b := (get?_applyArguments_positional_iff hnames rfl hbound).2 hold
  exact ⟨hnames, hbound, (h (⟨some "z".toList, "z".toList⟩, x) (by simp [s])).trans hx⟩

/-- A call that changes two parameters with each other gives both the same value. -/
theorem not_get?_applyArguments_positional :
    ¬ ∀ (language : Language) (s : Signature) (b : Bindings) (args : List Positional),
      (s.parameters.map (·.name)).Nodup → args.length = s.parameters.length →
        (∀ a ∈ args, (a.value? b).isSome) →
          ∀ x ∈ s.parameters.zip args, (applyArguments language s b
            (argumentList (args.map Positional.text))).get? x.1.name = x.2.value? b := by
  intro h
  let s : Signature := ⟨"swap".toList, ["x", "y"].map fun n => ⟨some n.toList, n.toList⟩, 4⟩
  let b := ((∅ : Bindings).insert "x".toList ['1']).insert "y".toList ['2']
  let x : Positional := .name "x".toList (by decide) (by decide)
  let y : Positional := .name "y".toList (by decide) (by decide)
  have hx : x.value? b = some ['1'] := by simp [x, b, Positional.value?, Bindings.get?_insert]
  have hy : y.value? b = some ['2'] := by simp [y, b, Positional.value?]
  have hgiven := h .kotlin s b [y, x] (by decide) rfl (by simp [hx, hy])
  rw [applyArguments_positional rfl, get?_give_iff (by decide) (by simp [s, hx, hy])] at hgiven
  have hold : ReadsOld b (⟨some "x".toList, "x".toList⟩, y) (⟨some "y".toList, "y".toList⟩, x) := by
    simpa [s] using hgiven
  have hsame : y.value? b = x.value? b := hold rfl
  rw [hx, hy] at hsame
  cases hsame

end DryRun.Call
