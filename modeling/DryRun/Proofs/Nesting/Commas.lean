import DryRun.Proofs.Nesting

/-!
# Splitting at commas

The pieces between the commas outside literals and brackets have all their other commas hidden
(`hides_of_mem_piecesFrom`), and trimming them changes nothing about that (`Hides.trim`), so a piece is
not split any further.  Trimmed texts that hide their commas and leave nothing open are what their list,
joined with commas, is split into.  Both are true whether or not `<` and `>` are brackets, of empty
pieces, and of text that leaves literals and brackets open (`split_pieces_and_split_intercalate`).
-/

namespace DryRun.Nesting

variable {angle : Bool} {n : Nesting} {stop : Char} {p t : Text}

/-! ### Pieces are not split any further -/

/-- The first piece hides its commas in a scan from where the text begins, and every other one in a scan
that begins behind a comma. -/
theorem exists_piecesFrom_eq (angle : Bool) (n : Nesting) (t : Text) :
    ∃ first more, piecesFrom angle n t = first :: more ∧ Hides angle ',' n first ∧
      ∀ p ∈ more, Hides angle ',' top p := by
  induction t generalizing n with
  | nil => exact ⟨[], [], rfl, hides_nil, List.forall_mem_nil _⟩
  | cons c t ih =>
    by_cases hc : n = top ∧ c = ','
    · obtain ⟨first, more, hpieces, hfirst, hmore⟩ := ih top
      refine ⟨[], first :: more, ?_, hides_nil, List.forall_mem_cons.2 ⟨hfirst, hmore⟩⟩
      rw [piecesFrom, if_pos hc, hpieces]
    · obtain ⟨first, more, hpieces, hfirst, hmore⟩ := ih (n.step angle c)
      refine ⟨c :: first, more, ?_, hides_cons.2 ⟨fun hn hcomma => hc ⟨hn, hcomma⟩, hfirst⟩, hmore⟩
      rw [piecesFrom, if_neg hc, hpieces, List.modifyHead_cons]

theorem hides_of_mem_piecesFrom (hp : p ∈ piecesFrom angle top t) : Hides angle ',' top p := by
  obtain ⟨first, more, hpieces, hfirst, hmore⟩ := exists_piecesFrom_eq angle top t
  rw [hpieces] at hp
  rcases List.mem_cons.1 hp with rfl | hp
  · exact hfirst
  · exact hmore p hp

/-- White space in front of a text hides nothing. -/
theorem after_of_isBlank (ht : t.isBlank) : after angle top t = top :=
  (passes_iff.1 (passes_of_forall (by decide) (List.all_eq_true.1 ht))).1

theorem Hides.trim (h : Hides angle stop top t) : Hides angle stop top t.trim := by
  obtain ⟨lead, trail, heq, hlead, -⟩ := Text.exists_trim t
  rw [heq, hides_append, hides_append, after_of_isBlank hlead] at h
  exact h.2.1

/-- What a text is split into is not split any further. -/
theorem split_of_mem_split (hp : p ∈ split angle t) (hne : p ≠ []) : split angle p = [p] := by
  unfold split at hp
  split at hp
  · cases hp
  · obtain ⟨piece, hpiece, rfl⟩ := List.mem_map.1 hp
    exact split_eq_singleton (hides_of_mem_piecesFrom hpiece).trim hne (Text.trim_trim piece)

/-! ### Splitting and joining -/

/-- **Splitting at commas loses nothing and undoes joining with commas.**  The pieces of a text that is
not blank are trimmed stretches of it, between which single commas stand, and none of them is split any
further.  A list of trimmed texts is split into the same texts if none of them leaves a literal or a
bracket open or has a comma outside all of them, and the list is not one empty text. -/
theorem split_pieces_and_split_intercalate (angle : Bool) :
    (∀ t : Text, t.isBlank = false →
      (∃ stretches : List Text, List.intercalate [','] stretches = t ∧
        split angle t = stretches.map Text.trim) ∧
      ∀ p ∈ split angle t, p ≠ [] → split angle p = [p]) ∧
    ∀ ps : List Text, ps ≠ [[]] →
      (∀ p ∈ ps, p.trim = p ∧ after angle top p = top ∧ Hides angle ',' top p) →
      split angle (List.intercalate [',', ' '] ps) = ps := by
  refine ⟨fun t ht => ⟨?_, fun p => split_of_mem_split⟩, fun ps hps h => ?_⟩
  · -- the stretches are the pieces before they are trimmed
    refine ⟨piecesFrom angle top t, intercalate_piecesFrom angle top t, ?_⟩
    rw [split, ht, if_neg Bool.false_ne_true]
  · have hsplit : split angle (List.intercalate [',', ' '] ps) = ps.map Text.trim := by
      refine split_intercalate_trim (fun p hp => (h p hp).2.2)
        (fun p hp => (h p (List.dropLast_subset _ hp)).2.1) ?_
      rintro p rfl
      have hne : p ≠ [] := by
        rintro rfl
        exact hps rfl
      exact Text.isBlank_eq_false hne (h p (by simp)).1
    rw [hsplit]
    exact (List.map_congr_left fun p hp => (h p hp).1).trans (List.map_id' ps)

/-- Brackets of different kinds, one that closes nothing, quotes around signs, an empty text, and a text
with a literal left open. -/
theorem split_pieces_and_split_intercalate_quotes :
    let ps : List Text := ["f(a, b]".toList, [], "\"é, (\" < x)".toList, "`,`".toList]
    let t : Text := "f(a, b], , \"é, (\" < x), `,`".toList
    let open' : Text := " 'a,' ,, g[, ',".toList
    (∀ p ∈ ps, p.trim = p ∧ after false top p = top ∧ Hides false ',' top p) ∧
      split false t = ps ∧ (∀ p ∈ ps, p ≠ [] → split false p = [p]) ∧
      split false open' = ["'a,'".toList, [], "g[, ',".toList] ∧
      split false "g[, ',".toList = ["g[, ',".toList] := by
  intro ps t open'
  have hps : ∀ p ∈ ps, p.trim = p ∧ after false top p = top ∧ Hides false ',' top p := by decide
  obtain ⟨hpieces, hjoined⟩ := split_pieces_and_split_intercalate false
  have ht : split false t = ps := hjoined ps (by decide) hps
  have hopen : split false open' = ["'a,'".toList, [], "g[, ',".toList] := by decide
  refine ⟨hps, ht, ?_, hopen, (hpieces open' (by decide)).2 _ (by rw [hopen]; simp) (by decide)⟩
  rw [← ht]
  exact (hpieces t (by decide)).2

end DryRun.Nesting
