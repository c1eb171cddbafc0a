import DryRun.Declaration

/-!
# Looking up what a series of bindings says

Of several bindings of one name the last counts, if each replaces what was bound before (`get?_ofList`),
and the first, if each counts only for a name without a value (`get?_insertAllNew`).  A text's
declarations are bound in three series (`get?_declared`).
-/

namespace DryRun

theorem mem_of_lookup_eq_some {α β : Type} [BEq α] [LawfulBEq α] {l : List (α × β)} {a : α} {b : β}
    (h : l.lookup a = some b) : (a, b) ∈ l := by
  obtain ⟨l₁, l₂, rfl, -⟩ := List.lookup_eq_some_iff.1 h
  simp

theorem lookup_eq_some_of_nodup {α β : Type} [BEq α] [LawfulBEq α] {l : List (α × β)} {a : α} {b : β}
    (hl : (l.map Prod.fst).Nodup) (h : (a, b) ∈ l) : l.lookup a = some b := by
  obtain ⟨l₁, l₂, rfl⟩ := List.append_of_mem h
  refine List.lookup_eq_some_iff.2 ⟨l₁, l₂, rfl, fun p hp => ?_⟩
  rw [bne_iff_ne]
  rintro rfl
  rw [List.map_append, List.map_cons, List.nodup_append] at hl
  exact hl.2.2 p.1 (List.mem_map_of_mem hp) p.1 (by simp) rfl

/-- Where keys differ, their order does not matter. -/
theorem lookup_eq_of_perm {α β : Type} [BEq α] [LawfulBEq α] {l l' : List (α × β)} {a : α}
    (h : l'.Perm l) (hl : (l.map Prod.fst).Nodup) : l'.lookup a = l.lookup a := by
  have hl' : (l'.map Prod.fst).Nodup := (h.map Prod.fst).nodup_iff.2 hl
  refine Option.ext fun b => ⟨fun hb => ?_, fun hb => ?_⟩
  · exact lookup_eq_some_of_nodup hl (h.mem_iff.1 (mem_of_lookup_eq_some hb))
  · exact lookup_eq_some_of_nodup hl' (h.mem_iff.2 (mem_of_lookup_eq_some hb))

/-- What is read off under one key is all that matters to looking that key up. -/
theorem lookup_filterMap_congr {α β γ : Type} [BEq α] [LawfulBEq α] {l : List γ} {a : α}
    {f g : γ → Option (α × β)} (h : ∀ x ∈ l, ∀ b, f x = some (a, b) ↔ g x = some (a, b)) :
    (l.filterMap f).lookup a = (l.filterMap g).lookup a := by
  -- what is read off `x` under another key is passed over
  have hskip : ∀ {f : γ → Option (α × β)} {x : γ} {l : List γ}, (∀ b, f x ≠ some (a, b)) →
      ((x :: l).filterMap f).lookup a = (l.filterMap f).lookup a := by
    intro f x l hx
    cases hf : f x with
    | none => rw [List.filterMap_cons_none hf]
    | some y =>
      have hne : (a == y.1) = false := by
        rw [beq_eq_false_iff_ne]
        rintro rfl
        exact hx y.2 hf
      rw [List.filterMap_cons_some hf, List.lookup_cons, hne]
  induction l with
  | nil => rfl
  | cons x l ih =>
    rw [List.forall_mem_cons] at h
    by_cases hx : ∃ b, f x = some (a, b)
    · obtain ⟨b, hf⟩ := hx
      rw [List.filterMap_cons_some hf, List.filterMap_cons_some ((h.1 b).1 hf), List.lookup_cons_self,
        List.lookup_cons_self]
    · have hf : ∀ b, f x ≠ some (a, b) := fun b hb => hx ⟨b, hb⟩
      rw [hskip hf, hskip fun b hb => hf b ((h.1 b).2 hb), ih h.2]

/-- Looking up among pairs read off a list finds the first entry of the list that has the key. -/
theorem lookup_map {α β γ : Type} [BEq α] (key : γ → α) (value : γ → β) (l : List γ) (a : α) :
    (l.map fun x => (key x, value x)).lookup a = (l.find? fun x => a == key x).map value := by
  induction l with
  | nil => rfl
  | cons x l ih => cases h : a == key x <;> simp [List.lookup_cons, h, ih]

namespace Bindings

theorem get?_foldl_insert (l : List (Text × Text)) (b : Bindings) (name : Text) :
    (l.foldl (fun b x => b.insert x.1 x.2) b).get? name =
      (l.reverse.lookup name <|> b.get? name) := by
  induction l generalizing b with
  | nil => rfl
  | cons x l ih =>
    obtain ⟨n, value⟩ := x
    rw [List.foldl_cons, ih, get?_insert, List.reverse_cons, List.lookup_append]
    by_cases h : n = name
    · subst h
      cases l.reverse.lookup n <;> simp
    · have hne : (name == n) = false := beq_eq_false_iff_ne.2 (Ne.symm h)
      rw [if_neg h]
      cases l.reverse.lookup name <;> simp [List.lookup_cons, hne]

theorem get?_foldl_insert_of_mem {l : List (Text × Text)} {b : Bindings} {name value : Text}
    (hl : (l.map Prod.fst).Nodup) (h : (name, value) ∈ l) :
    (l.foldl (fun b x => b.insert x.1 x.2) b).get? name = some value := by
  have hreverse : (l.reverse.map Prod.fst).Nodup :=
    ((List.reverse_perm l).map Prod.fst).nodup_iff.2 hl
  rw [get?_foldl_insert, lookup_eq_some_of_nodup hreverse (List.mem_reverse.2 h)]
  rfl

theorem get?_foldl_insert_of_notMem {l : List (Text × Text)} {b : Bindings} {name : Text}
    (h : name ∉ l.map Prod.fst) :
    (l.foldl (fun b x => b.insert x.1 x.2) b).get? name = b.get? name := by
  have hnone : l.reverse.lookup name = none := by
    refine List.lookup_eq_none_iff.2 fun p hp => bne_iff_ne.2 ?_
    rintro rfl
    exact h (List.mem_map_of_mem (List.mem_reverse.1 hp))
  rw [get?_foldl_insert, hnone]
  rfl

theorem get?_ofList (l : List (Text × Text)) (name : Text) :
    (ofList l).get? name = l.reverse.lookup name := by
  have h := get?_foldl_insert l ∅ name
  rw [get?_empty] at h
  unfold ofList
  rw [h]
  cases l.reverse.lookup name <;> rfl

/-- Of the bindings that count only for new names the first counts. -/
theorem get?_insertAllNew (l : List (Text × Text)) (b : Bindings) (name : Text) :
    (b.insertAllNew l).get? name = (b.get? name <|> l.lookup name) := by
  unfold insertAllNew
  induction l generalizing b with
  | nil => cases h : b.get? name <;> simp [h]
  | cons x l ih =>
    obtain ⟨n, value⟩ := x
    rw [List.foldl_cons, ih, get?_insertIfNew, List.lookup_cons]
    by_cases h : n = name
    · subst h
      cases b.get? n <;> simp
    · have hne : (name == n) = false := beq_eq_false_iff_ne.2 (Ne.symm h)
      rw [if_neg fun hn => h hn.1, hne]

end Bindings

/-- What a text declares of a name: the last string, else the first numeral, else the first truth
value. -/
theorem get?_declared (language : Language) (t name : Text) :
    (declared language t).get? name =
      (((Declaration.strings language t).reverse.lookup name <|>
        (Declaration.numbers language t).lookup name) <|>
          (Declaration.truths language t).lookup name) := by
  rw [declared, Bindings.get?_insertAllNew, Bindings.get?_insertAllNew, Bindings.get?_ofList]

theorem mem_of_get?_declared {language : Language} {t name value : Text}
    (h : (declared language t).get? name = some value) :
    (name, value) ∈ Declaration.strings language t ∨ (name, value) ∈ Declaration.numbers language t ∨
      (name, value) ∈ Declaration.truths language t := by
  simp only [get?_declared, Option.orElse_eq_orElse, Option.orElse_eq_or, Option.or_eq_some_iff] at h
  rcases h with (h | ⟨-, h⟩) | ⟨-, h⟩
  · exact Or.inl (List.mem_reverse.1 (mem_of_lookup_eq_some h))
  · exact Or.inr (Or.inl (mem_of_lookup_eq_some h))
  · exact Or.inr (Or.inr (mem_of_lookup_eq_some h))

end DryRun
