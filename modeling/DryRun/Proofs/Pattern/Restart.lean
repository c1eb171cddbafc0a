import DryRun.Proofs.Pattern.Context

/-!
# Searching and replacing go on behind a match

A pattern without edges looks only at what is to come (`ignoresSeen`): it matches behind any text in
the same ways as at the start of a text.  So does any pattern behind a text that leaves its edges where they
are (`SameEdges`), as every text does up to the start of a line; and a search goes on there as if the text
began there (`findFrom_behind`).  If a match of a pattern without edges is replaced by the same text wherever
it stands (`Restarts`), then replacing goes on behind a match, and behind a character outside all matches, as
if the text began there (`replaceAll_append`, `replaceAll_cons`).
-/

namespace DryRun.Pattern

open Cursor

variable {p : Pattern} {f : Match → Text} {seen before w r rest : Text} {g : List (Nat × Span)}

/-! ### Patterns that look only ahead -/

/-- Whether a pattern does not ask what stands before. -/
def ignoresSeen : Pattern → Bool
  | empty | one _ | many _ | fewest _ => true
  | seq p q | alt p q => ignoresSeen p && ignoresSeen q
  | group _ p => ignoresSeen p
  | wordBoundary | lineStart => false

/-- Whether behind a text the edges that a pattern asks for are where they are if nothing stands before. -/
def SameEdges (before : Text) : Pattern → Prop
  | empty | one _ | many _ | fewest _ => True
  | seq p q | alt p q => SameEdges before p ∧ SameEdges before q
  | group _ p => SameEdges before p
  | wordBoundary => before.head?.any Unicode.isWord = false
  | lineStart => before.head? = some '\n'

theorem sameEdges_of_ignoresSeen (hp : p.ignoresSeen) : SameEdges before p := by
  induction p with
  | seq p q ihp ihq | alt p q ihp ihq =>
    rw [ignoresSeen, Bool.and_eq_true] at hp
    exact ⟨ihp hp.1, ihq hp.2⟩
  | group n p ih => exact ih hp
  | wordBoundary | lineStart => cases hp
  | _ => trivial

/-- Whether a pattern does not ask where lines start. -/
def ignoresLines : Pattern → Bool
  | empty | one _ | many _ | fewest _ | wordBoundary => true
  | seq p q | alt p q => ignoresLines p && ignoresLines q
  | group _ p => ignoresLines p
  | lineStart => false

/-- Behind a text that does not end in a word, words have the same edges. -/
theorem sameEdges_of_ignoresLines (hp : p.ignoresLines) (hb : before.head?.any Unicode.isWord = false) :
    SameEdges before p := by
  induction p with
  | seq p q ihp ihq | alt p q ihp ihq =>
    rw [ignoresLines, Bool.and_eq_true] at hp
    exact ⟨ihp hp.1, ihq hp.2⟩
  | group n p ih => exact ih hp
  | wordBoundary => exact hb
  | lineStart => cases hp
  | _ => trivial

theorem sameEdges_of_line (hline : before.head? = some '\n') (p : Pattern) : SameEdges before p := by
  induction p with
  | seq p q ihp ihq | alt p q ihp ihq => exact ⟨ihp, ihq⟩
  | group n p ih => exact ih
  | wordBoundary => rw [SameEdges, hline]; rfl
  | lineStart => exact hline
  | _ => trivial

theorem stopsFrom_behind {cs : Char → Bool} : ∀ {seen r : Text} {n k : Nat} {hn : n = seen.length}
    {hk : k = (seen ++ before).length},
    stopsFrom cs (seen ++ before) k hk r = (stopsFrom cs seen n hn r).map (·.within before [])
  | seen, [], n, k, hn, hk => by
    subst hk
    rfl
  | seen, x :: r, n, k, hn, hk => by
    subst hk
    have ih : stopsFrom cs (x :: seen ++ before) _ (index_succ rfl x) r =
        (stopsFrom cs (x :: seen) (n + 1) (index_succ hn x) r).map (·.within before []) :=
      stopsFrom_behind
    have hhere : (⟨seen, x :: r, n, hn⟩ : Cursor).within before [] = between (seen ++ before) (x :: r) :=
      congrArg (between (seen ++ before)) (List.append_nil (x :: r))
    simp only [stopsFrom, List.map_cons, hhere]
    cases hx : cs x with
    | true => exact congrArg _ ih
    | false => rfl

theorem stops_behind {cs : Char → Bool} (c : Cursor) :
    (c.within before []).stops cs = (c.stops cs).map (·.within before []) := by
  show stopsFrom cs (c.seen ++ before) _ rfl (c.rest ++ []) = _
  rw [List.append_nil]
  exact stopsFrom_behind

/-- **A pattern matches behind a text in the same ways as if the text were not there**, if its edges are
the same. -/
theorem outcomes_behind (hp : SameEdges before p) (s : Progress) :
    outcomes p (s.within before []) = (outcomes p s).map (·.within before []) := by
  have hstops : ∀ (cs : Char → Bool) (s : Progress),
      (s.within before []).cursor.stops cs = (s.cursor.stops cs).map (·.within before []) :=
    fun _ s => stops_behind s.cursor
  induction p generalizing s with
  | empty => rfl
  | one cs =>
    obtain ⟨⟨seen, r, n, hn⟩, g⟩ := s
    cases r with
    | nil => rfl
    | cons x r =>
      cases hx : cs x with
      | true =>
        simp [outcomes, Progress.within, Cursor.within, between, advance?, hx]
        omega
      | false => simp [outcomes, Progress.within, Cursor.within, between, advance?, hx]
  | many cs =>
    simp only [outcomes, hstops, List.map_reverse, List.map_map]
    rfl
  | fewest cs =>
    simp only [outcomes, hstops, List.map_map]
    rfl
  | seq p q ihp ihq =>
    simp only [outcomes, ihp hp.1, List.flatMap_map, List.map_flatMap]
    exact List.flatMap_congr fun t _ => ihq hp.2 t
  | alt p q ihp ihq =>
    simp only [outcomes, ihp hp.1, ihq hp.2, List.map_append]
  | group n p ih =>
    simp only [outcomes, ih hp, List.map_map]
    rfl
  | wordBoundary =>
    -- at the start of a text as behind `before`, no word character stands in front
    have hedge : before.head?.any Unicode.isWord = false := hp
    have h : (s.within before []).cursor.atWordBoundary = s.cursor.atWordBoundary := by
      obtain ⟨⟨seen, r, n, hn⟩, g⟩ := s
      cases seen with
      | nil =>
        simp only [Progress.within, Cursor.within, between, atWordBoundary, List.nil_append,
          List.append_nil, hedge]
        rfl
      | cons x seen => simp [Progress.within, Cursor.within, between, atWordBoundary]
    simp only [outcomes, h]
    split <;> rfl
  | lineStart =>
    have hline : before.head? = some '\n' := hp
    have h : (s.within before []).cursor.atLineStart = s.cursor.atLineStart := by
      obtain ⟨⟨seen, r, n, hn⟩, g⟩ := s
      cases seen with
      | nil => simp [Progress.within, Cursor.within, between, atLineStart, hline]
      | cons x seen => simp [Progress.within, Cursor.within, between, atLineStart]
    simp only [outcomes, h]
    split <;> rfl

theorem matchAt?_behind (hp : SameEdges before p) :
    p.matchAt? (between (seen ++ before) r) =
      (p.matchAt? (between seen r)).map (·.within before []) := by
  have h : p.matchAt? ((between seen r).within before []) = _ :=
    matchAt?_within (outcomes_behind hp ⟨between seen r, []⟩)
  rwa [within_between, List.append_nil] at h

/-- **Behind such a text a search finds what it finds if the text is not there.** -/
theorem findFrom_behind (hp : SameEdges before p)
    (hne : ∀ {seen w rest g}, Takes p seen w rest [] g → w ≠ []) (t : Text) :
    p.findFrom before t = (p.findAll t).map (·.within before []) := by
  have h : p.findFrom ([] ++ before) (t ++ []) = _ :=
    findFrom_within hne le_rfl fun seen r _ _ =>
      matchAt?_within (outcomes_behind hp ⟨between seen r, []⟩)
  simpa [findAll_eq_findFrom] using h

/-! ### Replacing from a place -/

/-- What replacing relies on to go on behind a match as if the text began there. -/
structure Restarts (p : Pattern) (f : Match → Text) : Prop where
  ignoresSeen : p.ignoresSeen
  ne_nil : ∀ {seen w rest g}, Takes p seen w rest [] g → w ≠ []
  replace_within : ∀ {seen w rest g before}, Takes p seen w rest [] g →
    f ((matchOf seen w rest g).within before []) = f (matchOf seen w rest g)

/-- Replacing gives the same behind any text. -/
theorem replaceFrom_behind (hp : Restarts p f) : ∀ {n : Nat} {seen r : Text}, r.length ≤ n →
    p.replaceFrom f (seen ++ before) r = p.replaceFrom f seen r
  | _, seen, [], _ => rfl
  | n + 1, seen, x :: r, hn => by
    have hbehind : p.matchAt? (between (seen ++ before) (x :: r)) = _ := matchAt?_behind (sameEdges_of_ignoresSeen hp.ignoresSeen)
    cases hm : p.matchAt? (between seen (x :: r)) with
    | none =>
      rw [hm] at hbehind
      rw [replaceFrom_of_none hm, replaceFrom_of_none hbehind, ← List.cons_append,
        replaceFrom_behind hp (n := n) (by simpa using hn)]
    | some m =>
      obtain ⟨w, rest, g, hr, rfl, hw⟩ := takes_of_matchAt?_eq_some hm
      have hne := hp.ne_nil hw
      have hwithin : (matchOf seen w rest g).within before [] =
          matchOf (seen ++ before) w rest (groupsWithin before [] g) := by
        simp [matchOf, Match.within, Span.within_of]
      have hlen := length_le_of_cons_eq_append hr hne hn
      have hf : f ((matchOf seen w rest g).within before []) = _ := hp.replace_within hw
      rw [hm, hr, Option.map_some, hwithin] at hbehind
      rw [hwithin] at hf
      rw [hr] at hm
      rw [hr, replaceFrom_of_some hne hm, replaceFrom_of_some hne hbehind, hf, ← List.append_assoc,
        replaceFrom_behind hp hlen]

theorem replaceFrom_eq_replaceAll (hp : Restarts p f) (seen r : Text) :
    p.replaceFrom f seen r = p.replaceAll f r := by
  have h : p.replaceFrom f ([] ++ seen) r = p.replaceFrom f [] r := replaceFrom_behind hp le_rfl
  rwa [List.nil_append, ← replaceAll_eq_replaceFrom] at h

/-- **Behind a match replacing goes on as if the text began there.** -/
theorem replaceAll_append (hp : Restarts p f) (hw : w ≠ [])
    (h : p.matchAt? (between [] (w ++ rest)) = some (matchOf [] w rest g)) :
    p.replaceAll f (w ++ rest) = f (matchOf [] w rest g) ++ p.replaceAll f rest := by
  rw [← replaceFrom_eq_replaceAll hp [], replaceFrom_of_some hw h, replaceFrom_eq_replaceAll hp]

/-- So it does behind a character where nothing matches. -/
theorem replaceAll_cons (hp : Restarts p f) {x : Char}
    (h : p.matchAt? (between [] (x :: r)) = none) :
    p.replaceAll f (x :: r) = x :: p.replaceAll f r := by
  rw [← replaceFrom_eq_replaceAll hp [], replaceFrom_of_none h, replaceFrom_eq_replaceAll hp]

end DryRun.Pattern
