import DryRun.Proofs.Arguments.Literals

/-!
# Calls with labels

In most languages with labels the label of a parameter is its name (`label_of_mem_signatures`).  A
labelled argument is meant for the parameter of that name.  If there is none, it goes by its position
after all (`strays`), and that is the only way in which such a call binds another name than those of its
labels (`changes_only_labels_iff`).
-/

namespace DryRun.Call

variable {language : Language} {s : Signature} {b : Bindings} {t n v : Text}

/-! ### Parameters -/

theorem label_of_ofText? {p : Parameter} (hl : language ≠ .swift)
    (h : Parameter.ofText? language t = some p) : p.label = some p.name := by
  unfold Parameter.ofText? at h
  split at h
  · cases h
  · dsimp only at h
    split at h
    · cases h
    · split at h
      · exact absurd rfl hl
      · obtain rfl := Option.some.inj h
        rfl

theorem label_of_mem_signatures (hl : language ≠ .swift) (hs : s ∈ signatures language t) :
    ∀ p ∈ s.parameters, p.label = some p.name := by
  obtain ⟨header, -, m, -, hm⟩ := mem_signatures_iff.1 hs
  simp only [Signature.ofMatch?, Option.bind_eq_bind, Option.bind_eq_some_iff] at hm
  obtain ⟨span, -, hm⟩ := hm
  split at hm
  · cases hm
  · obtain rfl := Option.some.inj hm
    intro p hp
    obtain ⟨text, -, htext⟩ := List.mem_filterMap.1 hp
    exact label_of_ofText? hl htext

/-! ### What a list of labelled arguments binds -/

/-- What an argument in a position binds, if anything. -/
def binding? (s : Signature) (x : Labelled language × Nat) : Option (Text × Text) :=
  (s.parameters.find? (·.label == some x.1.label) <|> s.parameters[x.2]?).map fun p =>
    (p.name, x.1.value.value)

/-- What an argument in a position binds if no parameter has its label. -/
def stray? (s : Signature) (x : Labelled language × Nat) : Option (Text × Text) :=
  if s.parameters.any (·.label == some x.1.label) then none
  else s.parameters[x.2]?.map fun p => (p.name, x.1.value.value)

/-- What the arguments of a list bind whose label no parameter has. -/
def strays (s : Signature) (args : List (Labelled language)) : List (Text × Text) :=
  args.zipIdx.filterMap (stray? s)

theorem applyArguments_labelled {args : List (Labelled language)} :
    applyArguments language s b (argumentList (args.map Labelled.text)) =
      (args.zipIdx.filterMap (binding? s)).foldl (fun b x => b.insert x.1 x.2) b := by
  have hargs : args.map Labelled.text = args.zipIdx.map fun x => x.1.text := by
    conv_lhs => rw [← List.zipIdx_map_fst 0 args, List.map_map]
    rfl
  rw [hargs, List.foldl_filterMap]
  refine applyArguments_argumentList (fun x _ => ⟨x.1.isTrimmed_text, x.1.passes_text⟩) fun b k x hx => ?_
  obtain rfl : x.2 = k := by
    rw [List.getElem?_zipIdx] at hx
    obtain ⟨a, -, rfl⟩ := Option.map_eq_some_iff.1 hx
    simp
  cases hfind : s.parameters.find? (·.label == some x.1.label) with
  | some p => simpa [binding?, hfind] using x.1.applyArgument_of_label hfind
  | none =>
    cases hp : s.parameters[x.2]? <;>
      simp [applyArgument, target?, x.1.labelled?_text, hfind, hp, x.1.value.value?_text, binding?]

theorem exists_parameter_of_binding? {x : Labelled language × Nat} (h : binding? s x = some (n, v)) :
    ∃ p ∈ s.parameters, p.name = n := by
  obtain ⟨p, hp, heq⟩ := Option.map_eq_some_iff.1 h
  refine ⟨p, ?_, congrArg Prod.fst heq⟩
  cases hfind : s.parameters.find? (·.label == some x.1.label) with
  | some q =>
    obtain rfl : q = p := by simpa [hfind] using hp
    exact List.mem_of_find?_eq_some hfind
  | none => exact List.mem_of_getElem? (by simpa [hfind] using hp)

/-- Under a name that is not its label, an argument binds something only if no parameter has its label. -/
theorem binding?_eq_some_iff (hs : ∀ p ∈ s.parameters, p.label = some p.name)
    {x : Labelled language × Nat} (hn : x.1.label ≠ n) :
    binding? s x = some (n, v) ↔ stray? s x = some (n, v) := by
  cases hfind : s.parameters.find? (·.label == some x.1.label) with
  | none =>
    have hany : s.parameters.any (·.label == some x.1.label) = false := by
      simpa [List.find?_eq_none] using hfind
    simp [binding?, stray?, hfind, hany]
  | some p =>
    have hmem := List.mem_of_find?_eq_some hfind
    have hlabel : p.label = some x.1.label := by simpa using List.find?_some hfind
    have hany : s.parameters.any (·.label == some x.1.label) = true :=
      List.any_eq_true.2 ⟨p, hmem, by simp [hlabel]⟩
    have hname : p.name = x.1.label := Option.some.inj ((hs p hmem).symm.trans hlabel)
    simp [binding?, stray?, hfind, hany, hname, hn]

/-- **A call with labelled arguments binds no name but parameters with one of the labels**, unless an
argument whose label no parameter has changes the parameter in its position, and no other argument has
the name of that as its label. -/
theorem changes_only_labels_iff {args : List (Labelled language)}
    (hs : ∀ p ∈ s.parameters, p.label = some p.name) :
    (∀ n, (applyArguments language s b (argumentList (args.map Labelled.text))).get? n ≠ b.get? n →
        (∃ p ∈ s.parameters, p.name = n) ∧ ∃ a ∈ args, a.label = n) ↔
      ∀ n, (∀ a ∈ args, a.label ≠ n) → ∀ v ∈ (strays s args).reverse.lookup n, b.get? n = some v := by
  have hget : ∀ n, (applyArguments language s b (argumentList (args.map Labelled.text))).get? n =
      ((args.zipIdx.filterMap (binding? s)).reverse.lookup n <|> b.get? n) := by
    intro n
    rw [applyArguments_labelled, Bindings.get?_foldl_insert]
  -- a name that is no label can only be bound by a stray
  have hstray : ∀ n, (∀ a ∈ args, a.label ≠ n) →
      (args.zipIdx.filterMap (binding? s)).reverse.lookup n = (strays s args).reverse.lookup n := by
    intro n hn
    rw [strays, ← List.filterMap_reverse, ← List.filterMap_reverse]
    refine lookup_filterMap_congr fun x hx v => binding?_eq_some_iff hs (hn x.1 ?_)
    exact List.fst_mem_of_mem_zipIdx (List.mem_reverse.1 hx)
  constructor
  · intro h n hn v hv
    by_contra hne
    have hafter := hget n
    rw [hstray n hn, hv] at hafter
    obtain ⟨-, a, ha, hlabel⟩ := h n fun heq => hne (heq.symm.trans hafter)
    exact hn a ha hlabel
  · intro h n hchange
    have hafter := hget n
    cases hlookup : (args.zipIdx.filterMap (binding? s)).reverse.lookup n with
    | none =>
      rw [hlookup] at hafter
      exact absurd hafter hchange
    | some v =>
      rw [hlookup] at hafter
      have hmem := List.mem_reverse.1 (mem_of_lookup_eq_some hlookup)
      obtain ⟨x, -, hx⟩ := List.mem_filterMap.1 hmem
      refine ⟨exists_parameter_of_binding? hx, ?_⟩
      by_contra hnone
      have hn : ∀ a ∈ args, a.label ≠ n := fun a ha heq => hnone ⟨a, ha, heq⟩
      rw [hstray n hn] at hlookup
      exact hchange (hafter.trans (h n hn v hlookup).symm)

/-- The first argument is a stray in the position of `a`, which the second has as its label. -/
theorem changes_only_labels_python :
    let s : Signature := ⟨['f'], [⟨some ['a'], ['a']⟩, ⟨some ['b'], ['b']⟩], 4⟩
    let b := (∅ : Bindings).insert ['b'] "old".toList
    s ∈ signatures .python "def f(a, b):".toList ∧ (∀ p ∈ s.parameters, p.label = some p.name) ∧
      (applyArguments .python s b "z = 5, a='1'".toList).get? ['b'] = some "old".toList := by
  intro s b
  have hmem : s ∈ signatures .python "def f(a, b):".toList := by decide +kernel
  have hs : ∀ p ∈ s.parameters, p.label = some p.name := label_of_mem_signatures (by decide) hmem
  let z : Labelled .python :=
    { label := ['z'], mark := '=', before := [' '], after := [' '],
      value := .numeral ['5'] (by decide),
      label_isName := by decide, labelMark_eq := rfl, before_blank := rfl, after_blank := rfl }
  let a : Labelled .python :=
    { label := ['a'], mark := '=', before := [], after := [],
      value := .quoted '\'' ['1'] (Or.inr rfl) (StringLiteral.isBody_of_notMem (by decide) rfl),
      label_isName := by decide, labelMark_eq := rfl, before_blank := rfl, after_blank := rfl }
  have hstrays : strays s [z, a] = [(['a'], ['5'])] := rfl
  have honly := (@changes_only_labels_iff .python s b [z, a] hs).2 fun n hn v hv => by
    rw [hstrays] at hv
    have hmem := mem_of_lookup_eq_some hv
    obtain ⟨rfl, -⟩ : n = ['a'] ∧ v = ['5'] := by simpa using hmem
    exact absurd rfl (hn a (by simp))
  have hkept : (applyArguments .python s b "z = 5, a='1'".toList).get? ['b'] = b.get? ['b'] := by
    by_contra hchange
    obtain ⟨-, a', ha', hlabel⟩ := honly ['b'] hchange
    rcases List.mem_pair.1 ha' with rfl | rfl <;> cases hlabel
  exact ⟨hmem, hs, hkept.trans (Bindings.get?_insert_self ∅ _ _)⟩

/-- A label that no parameter has overwrites the first parameter. -/
theorem not_changes_only_labels :
    ¬ ∀ (language : Language) (s : Signature) (b : Bindings) (args : List (Labelled language)),
      (language = .kotlin ∨ language = .python) → (∀ p ∈ s.parameters, p.label = some p.name) →
        ∀ n, (applyArguments language s b (argumentList (args.map Labelled.text))).get? n ≠ b.get? n →
          (∃ p ∈ s.parameters, p.name = n) ∧ ∃ a ∈ args, a.label = n := by
  intro h
  let s : Signature := ⟨['f'], [⟨some ['a'], ['a']⟩], 4⟩
  let b := (∅ : Bindings).insert ['a'] ['1']
  let z : Labelled .python :=
    { label := ['z'], mark := '=', before := [], after := [], value := .numeral ['5'] (by decide),
      label_isName := by decide, labelMark_eq := rfl, before_blank := rfl, after_blank := rfl }
  have hbindings : [z].zipIdx.filterMap (binding? s) = [(['a'], ['5'])] := rfl
  have hafter : (applyArguments .python s b (argumentList ([z].map Labelled.text))).get? ['a'] =
      some ['5'] := by
    rw [applyArguments_labelled, hbindings]
    exact Bindings.get?_insert_self _ _ _
  have hbefore : b.get? ['a'] = some ['1'] := Bindings.get?_insert_self ∅ _ _
  have hchange : (applyArguments .python s b (argumentList ([z].map Labelled.text))).get? ['a'] ≠
      b.get? ['a'] := by
    rw [hafter, hbefore]
    decide
  obtain ⟨-, a, ha, hlabel⟩ := h .python s b [z] (Or.inr rfl) (by decide) ['a'] hchange
  obtain rfl := List.mem_singleton.1 ha
  cases hlabel

end DryRun.Call
