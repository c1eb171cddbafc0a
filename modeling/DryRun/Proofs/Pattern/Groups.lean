import DryRun.Proofs.Lookup
import DryRun.Proofs.Pattern.Matches

/-!
# What the groups of a match hold

A group of a match holds a stretch of the matched text, and one that a pattern of the group's number
takes (`numbered`, `exists_of_mem_groups`).  So whatever is read off the groups of found matches stands
in the searched text (`infix_of_group?_findAll`).
-/

namespace DryRun.Pattern

variable {p : Pattern} {seen w rest t x : Text} {g g' : List (Nat × Span)} {m : Match} {n : Nat}

/-- The patterns whose stretches are remembered under a number. -/
def numbered (n : Nat) : Pattern → List Pattern
  | empty | one _ | many _ | fewest _ | wordBoundary | lineStart => []
  | seq p q | alt p q => numbered n p ++ numbered n q
  | group k p => if k = n then p :: numbered n p else numbered n p

theorem mem_numbered_group {q : Pattern} {k : Nat} (h : q ∈ p.numbered n) :
    q ∈ (group k p).numbered n := by
  unfold numbered
  split
  · exact List.mem_cons_of_mem p h
  · exact h

/-- Whether a text is taken by a pattern somewhere. -/
def TakesText (p : Pattern) (w : Text) : Prop := ∃ seen rest g g', Takes p seen w rest g g'

/-- **What a group holds** was taken by its pattern, as a part of what was matched. -/
theorem exists_of_mem_groups (h : Takes p seen w rest g g') : ∀ x ∈ g', x ∈ g ∨
    ∃ q seen' u rest', q ∈ p.numbered x.1 ∧ TakesText q u ∧ u <:+: w ∧
      x.2 = Span.of seen' u rest' := by
  induction p generalizing seen w rest g g' with
  | empty =>
    obtain ⟨-, rfl⟩ := h
    exact fun x hx => Or.inl hx
  | one p =>
    obtain ⟨-, rfl⟩ := h
    exact fun x hx => Or.inl hx
  | many p =>
    obtain ⟨-, rfl⟩ := h
    exact fun x hx => Or.inl hx
  | fewest p =>
    obtain ⟨-, rfl⟩ := h
    exact fun x hx => Or.inl hx
  | seq p q ihp ihq =>
    obtain ⟨u, v, g₁, rfl, hu, hv⟩ := h
    intro x hx
    rcases ihq hv x hx with hx | ⟨r, seen', z, rest', hr, hz, hzv, hx⟩
    · rcases ihp hu x hx with hx | ⟨r, seen', z, rest', hr, hz, hzu, hx⟩
      · exact Or.inl hx
      · exact Or.inr ⟨r, seen', z, rest', List.mem_append_left _ hr, hz,
          hzu.trans (List.prefix_append u v).isInfix, hx⟩
    · exact Or.inr ⟨r, seen', z, rest', List.mem_append_right _ hr, hz,
        hzv.trans (List.suffix_append u v).isInfix, hx⟩
  | alt p q ihp ihq =>
    intro x hx
    rcases h with h | h
    · rcases ihp h x hx with hx | ⟨r, seen', z, rest', hr, hz⟩
      · exact Or.inl hx
      · exact Or.inr ⟨r, seen', z, rest', List.mem_append_left _ hr, hz⟩
    · rcases ihq h x hx with hx | ⟨r, seen', z, rest', hr, hz⟩
      · exact Or.inl hx
      · exact Or.inr ⟨r, seen', z, rest', List.mem_append_right _ hr, hz⟩
  | group n p ih =>
    obtain ⟨g₁, h, rfl⟩ := h
    intro x hx
    -- the group itself, or one inside it
    rcases List.mem_cons.1 hx with rfl | hx
    · exact Or.inr ⟨p, seen, w, rest, by simp [numbered], ⟨seen, rest, g, g₁, h⟩,
        List.infix_rfl, rfl⟩
    · rcases ih h x hx with hx | ⟨r, seen', z, rest', hr, hz⟩
      · exact Or.inl hx
      · exact Or.inr ⟨r, seen', z, rest', mem_numbered_group hr, hz⟩
  | wordBoundary =>
    obtain ⟨-, -, rfl⟩ := h
    exact fun x hx => Or.inl hx
  | lineStart =>
    obtain ⟨-, -, rfl⟩ := h
    exact fun x hx => Or.inl hx

/-! ### The groups of found matches -/

theorem exists_numbered_of_group? (h : Takes p seen w rest [] g)
    (hx : (matchOf seen w rest g).group? n = some x) :
    x <:+: w ∧ ∃ q ∈ p.numbered n, TakesText q x := by
  obtain ⟨span, hspan, rfl⟩ := Option.map_eq_some_iff.1 hx
  have hmem : (n, span) ∈ g := mem_of_lookup_eq_some hspan
  obtain ⟨q, seen', u, rest', hq, hu, hw, hspan⟩ :=
    (exists_of_mem_groups h _ hmem).resolve_left (by simp)
  have htext : Span.text span = u := by
    have hspan : span = Span.of seen' u rest' := hspan
    rw [hspan, Span.text_of]
  rw [htext]
  exact ⟨hw, q, hq, hu⟩

/-- What a group of a found match holds stands in the text. -/
theorem infix_of_group?_findAll (hm : m ∈ p.findAll t) (hx : m.group? n = some x) : x <:+: t := by
  obtain ⟨u, w, rest, g, rfl, rfl, h⟩ := takes_of_mem_findAll hm
  exact (exists_numbered_of_group? h hx).1.trans (List.infix_append' u w rest)

/-- It is something that the group's pattern takes. -/
theorem exists_numbered_of_mem_findAll (hm : m ∈ p.findAll t) (hx : m.group? n = some x) :
    ∃ q ∈ p.numbered n, TakesText q x := by
  obtain ⟨u, w, rest, g, rfl, rfl, h⟩ := takes_of_mem_findAll hm
  exact (exists_numbered_of_group? h hx).2

theorem rest_suffix_of_mem_findAll (hm : m ∈ p.findAll t) : m.rest <:+ t := by
  obtain ⟨u, w, rest, g, rfl, rfl, -⟩ := takes_of_mem_findAll hm
  rw [← List.append_assoc]
  exact List.suffix_append (u ++ w) rest

/-- Replacing asks only what the found matches are replaced by. -/
theorem replaceAll_congr {f f' : Match → Text} (h : ∀ m ∈ p.findAll t, f m = f' m) :
    p.replaceAll f t = p.replaceAll f' t := by
  refine List.flatMap_congr fun piece hpiece => ?_
  cases piece with
  | plain c => rfl
  | found m => exact h m (List.mem_filterMap.2 ⟨.found m, hpiece, rfl⟩)

end DryRun.Pattern
