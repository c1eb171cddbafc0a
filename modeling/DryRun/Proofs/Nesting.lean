import DryRun.Nesting
import DryRun.Proofs.StringLiteral

/-!
# Argument lists

A scan that meets no stop outside literals and brackets goes on behind a text as if it began where the
text has left it (`Hides`, `closeFrom_of_hides`, `piecesFrom_of_hides`).  It passes over a text from one
place to another if no comma and no closing parenthesis in it stands outside literals and brackets
(`Passes`).  Names, numerals and literals are passed over, and so is what is put together from them.  An
argument list that is passed over ends at the parenthesis behind it
(`arguments?_of_passes`), whatever follows that (`closeFrom_append`).  Trimmed texts that are passed
over, joined with commas, are split into the same texts (`split_intercalate`); where one of them leaves a
bracket open, there are fewer pieces (`length_piecesFrom_intercalate`).  A text with its commas hidden is one piece
(`split_eq_singleton`).
-/

namespace DryRun.Nesting

open Comment (backtick isQuote)
open StringLiteral (IsBody isQuote_ne)

/-- Whether a scan comes through a text from one place to another and meets no comma and no closing
parenthesis outside literals and brackets. -/
inductive Passes (angle : Bool) : Nesting → Text → Nesting → Prop
  | nil {n : Nesting} : Passes angle n [] n
  | cons {n m : Nesting} {c : Char} {t : Text} (hc : n = top → c ≠ ',' ∧ c ≠ ')')
      (ht : Passes angle (n.step angle c) t m) : Passes angle n (c :: t) m

/-- Where a scan stands behind a text. -/
def after (angle : Bool) (n : Nesting) (t : Text) : Nesting := t.foldl (step angle) n

/-- Whether a scan that begins at `n` finds every `stop` in a text within a literal or a bracket. -/
def Hides (angle : Bool) (stop : Char) (n : Nesting) (t : Text) : Prop :=
  ∀ before behind, t = before ++ stop :: behind → after angle n before ≠ top

/-- The signs that matter to a scan outside literals and brackets. -/
def signs : Text := ['"', '\'', backtick, '(', '[', '{', '<', ')', ']', '}', '>', ',']

variable {angle : Bool} {n m k : Nesting} {quote stop c : Char} {s t rest : Text}

/-! ### What is hidden from a scan -/

theorem after_append (angle : Bool) (n : Nesting) (s t : Text) :
    after angle n (s ++ t) = after angle (after angle n s) t := List.foldl_append

theorem quoting_after (angle : Bool) (n : Nesting) (t : Text) :
    (after angle n t).quoting = t.foldl Quoting.step n.quoting := by
  induction t generalizing n with
  | nil => rfl
  | cons c t ih => exact ih (n.step angle c)

theorem hides_nil : Hides angle stop n [] := by
  intro before behind h
  cases before <;> cases h

theorem hides_cons :
    Hides angle stop n (c :: t) ↔ (n = top → c ≠ stop) ∧ Hides angle stop (n.step angle c) t := by
  constructor
  · refine fun h => ⟨?_, fun before behind heq => h (c :: before) behind (by rw [heq]; rfl)⟩
    rintro hn rfl
    exact h [] t rfl hn
  · rintro ⟨hc, ht⟩ before behind heq
    cases before with
    | nil => exact fun hn => hc hn (List.cons_eq_cons.1 heq).1
    | cons d before =>
      obtain ⟨rfl, htail⟩ := List.cons_eq_cons.1 heq
      exact ht before behind htail

theorem hides_append :
    Hides angle stop n (s ++ t) ↔ Hides angle stop n s ∧ Hides angle stop (after angle n s) t := by
  induction s generalizing n with
  | nil => exact (and_iff_right hides_nil).symm
  | cons c s ih =>
    rw [List.cons_append, hides_cons, hides_cons, ih, and_assoc]
    rfl

instance Hides.decidable (angle : Bool) (stop : Char) : (n : Nesting) → (t : Text) →
    Decidable (Hides angle stop n t)
  | _, [] => .isTrue hides_nil
  | n, c :: t =>
    have := Hides.decidable angle stop (n.step angle c) t
    decidable_of_iff _ hides_cons.symm

theorem hides_of_notMem (ht : stop ∉ t) : Hides angle stop n t := by
  rintro before behind rfl
  exact absurd (by simp) ht

theorem eq_top_iff : n = top ↔ n.quoting = .outside ∧ n.depth = 0 := by
  cases n
  simp [top]

theorem depth_after_le {n' : Nesting} (hq : n'.quoting = n.quoting) (hdepth : n.depth ≤ n'.depth)
    (t : Text) : (after angle n t).depth ≤ (after angle n' t).depth := by
  induction t generalizing n n' with
  | nil => exact hdepth
  | cons c t ih =>
    have hstep : (n.step angle c).depth ≤ (n'.step angle c).depth := by
      simp only [step, hq]
      repeat' split
      all_goals omega
    exact ih (by simp [step, hq]) hstep

/-- What is hidden is hidden where more brackets are open. -/
theorem Hides.of_deeper {n' : Nesting} (h : Hides angle stop n t) (hq : n'.quoting = n.quoting)
    (hdepth : n.depth ≤ n'.depth) : Hides angle stop n' t := by
  intro before behind heq htop
  obtain ⟨hquoting, hzero⟩ := eq_top_iff.1 htop
  have hle : (after angle n before).depth ≤ 0 := hzero ▸ depth_after_le hq hdepth before
  rw [quoting_after, hq, ← quoting_after angle] at hquoting
  exact h before behind heq (eq_top_iff.2 ⟨hquoting, Nat.le_zero.1 hle⟩)

/-- A text with its closing parentheses hidden belongs to the list. -/
theorem closeFrom_of_hides (h : Hides false ')' n t) :
    closeFrom n (t ++ rest) = (closeFrom (after false n t) rest).map fun (a, r) => (t ++ a, r) := by
  induction t generalizing n with
  | nil => cases hrest : closeFrom n rest <;> simp [after, hrest]
  | cons c t ih =>
    obtain ⟨hc, ht⟩ := hides_cons.1 h
    rw [List.cons_append, closeFrom, if_neg fun h => hc h.1 h.2, ih ht, Option.map_map]
    rfl

/-- A text with its commas hidden belongs to the piece that the text behind it begins with. -/
theorem piecesFrom_of_hides (h : Hides angle ',' n t) :
    piecesFrom angle n (t ++ rest) =
      (piecesFrom angle (after angle n t) rest).modifyHead (t ++ ·) := by
  induction t generalizing n with
  | nil => exact (congrFun List.modifyHead_id _).symm
  | cons c t ih =>
    obtain ⟨hc, ht⟩ := hides_cons.1 h
    rw [List.cons_append, piecesFrom, if_neg fun h => hc h.1 h.2, ih ht, List.modifyHead_modifyHead]
    rfl

/-! ### What is passed over -/

theorem passes_nil : Passes angle n [] m ↔ n = m :=
  ⟨fun h => by cases h; rfl, by rintro rfl; exact .nil⟩

theorem passes_cons : Passes angle n (c :: t) m ↔
    (n = top → c ≠ ',' ∧ c ≠ ')') ∧ Passes angle (n.step angle c) t m :=
  ⟨fun h => by cases h with | cons hc ht => exact ⟨hc, ht⟩, fun h => .cons h.1 h.2⟩

/-- What is passed over hides its commas and closing parentheses. -/
theorem passes_iff : Passes angle n t m ↔
    after angle n t = m ∧ Hides angle ',' n t ∧ Hides angle ')' n t := by
  induction t generalizing n with
  | nil => simp [passes_nil, after, hides_nil]
  | cons c t ih =>
    have hafter : after angle n (c :: t) = after angle (n.step angle c) t := rfl
    rw [passes_cons, ih, hides_cons, hides_cons, hafter]
    exact ⟨fun ⟨hc, hm, hcomma, hparen⟩ =>
        ⟨hm, ⟨fun hn => (hc hn).1, hcomma⟩, ⟨fun hn => (hc hn).2, hparen⟩⟩,
      fun ⟨hm, ⟨hc, hcomma⟩, ⟨hc', hparen⟩⟩ => ⟨fun hn => ⟨hc hn, hc' hn⟩, hm, hcomma, hparen⟩⟩

instance Passes.decidable (angle : Bool) (m : Nesting) : (n : Nesting) → (t : Text) →
    Decidable (Passes angle n t m)
  | _, [] => decidable_of_iff _ passes_nil.symm
  | n, c :: t =>
    have := Passes.decidable angle m (n.step angle c) t
    decidable_of_iff _ passes_cons.symm

theorem Passes.append {s t : Text} (hs : Passes angle n s m) (ht : Passes angle m t k) :
    Passes angle n (s ++ t) k := by
  induction hs with
  | nil => exact ht
  | cons hc _ ih => exact .cons hc (ih ht)

theorem step_of_notMem_signs (hc : c ∉ signs) : top.step angle c = top := by
  simp only [signs, List.mem_cons, List.not_mem_nil, not_or, or_false] at hc
  simp [step, top, Quoting.step, isQuote, isOpening, isClosing, hc]

theorem step_of_isQuote {d : Nat} (h : isQuote c) : step angle ⟨.outside, d⟩ c = ⟨.inside c, d⟩ := by
  simp only [isQuote, Bool.or_eq_true, beq_iff_eq] at h
  rcases h with (rfl | rfl) | rfl <;> cases angle <;> rfl

theorem passes_of_notMem_signs (ht : ∀ c ∈ t, c ∉ signs) : Passes angle top t top := by
  induction t with
  | nil => exact .nil
  | cons c t ih =>
    rw [List.forall_mem_cons] at ht
    have hne : ∀ d ∈ signs, c ≠ d := by
      rintro d hd rfl
      exact ht.1 hd
    refine .cons (fun _ => ⟨hne ',' (by decide), hne ')' (by decide)⟩) ?_
    rw [step_of_notMem_signs ht.1]
    exact ih ht.2

theorem passes_of_forall {p : Char → Bool} (hp : ∀ c ∈ signs, p c = false) (ht : ∀ c ∈ t, p c) :
    Passes angle top t top := by
  refine passes_of_notMem_signs fun c hc hsign => ?_
  have h := ht c hc
  rw [hp c hsign] at h
  cases h

theorem passes_of_isWord (ht : ∀ c ∈ t, Unicode.isWord c) : Passes angle top t top :=
  passes_of_forall (by decide) ht

/-- A body is passed over up to the quote behind it, whatever signs stand in it. -/
theorem passes_body {d : Nat} (hq : quote ≠ '\\') (ht : IsBody quote t) :
    Passes angle ⟨.inside quote, d⟩ (t ++ [quote]) ⟨.outside, d⟩ := by
  have hinside : ∀ {c : Char}, (⟨.inside quote, d⟩ : Nesting) = top → c ≠ ',' ∧ c ≠ ')' :=
    fun h => by cases h
  have hescaped : ∀ {c : Char}, (⟨.escaped quote, d⟩ : Nesting) = top → c ≠ ',' ∧ c ≠ ')' :=
    fun h => by cases h
  induction ht with
  | nil =>
    have hstep : step angle ⟨.inside quote, d⟩ quote = ⟨.outside, d⟩ := by
      simp [step, Quoting.step, hq]
    refine .cons hinside ?_
    rw [hstep]
    exact .nil
  | pair c _ ih =>
    have h1 : step angle ⟨.inside quote, d⟩ '\\' = ⟨.escaped quote, d⟩ := by simp [step, Quoting.step]
    have h2 : step angle ⟨.escaped quote, d⟩ c = ⟨.inside quote, d⟩ := by simp [step, Quoting.step]
    refine .cons hinside ?_
    rw [h1]
    refine .cons hescaped ?_
    rw [h2]
    exact ih
  | @one c _ hc hne _ ih =>
    have hstep : step angle ⟨.inside quote, d⟩ c = ⟨.inside quote, d⟩ := by
      simp [step, Quoting.step, hc, hne]
    refine .cons hinside ?_
    rw [hstep]
    exact ih

theorem passes_quoted {d : Nat} (hq : isQuote quote) (ht : IsBody quote t) :
    Passes angle ⟨.outside, d⟩ (quote :: (t ++ [quote])) ⟨.outside, d⟩ := by
  have hne : ∀ d, isQuote d = false → quote ≠ d := by
    rintro d hd rfl
    rw [hd] at hq
    cases hq
  refine .cons (fun _ => ⟨hne ',' (by decide), hne ')' (by decide)⟩) ?_
  rw [step_of_isQuote hq]
  exact passes_body (isQuote_ne hq).1 ht

/-! ### Up to the closing parenthesis -/

/-- A list that is closed is closed by the same parenthesis whatever follows. -/
theorem closeFrom_append {args after : Text} (h : closeFrom n t = some (args, after)) :
    closeFrom n (t ++ rest) = some (args, after ++ rest) := by
  induction t generalizing n args with
  | nil => cases h
  | cons c t ih =>
    rw [closeFrom] at h
    rw [List.cons_append, closeFrom]
    split at h
    · rename_i hc
      obtain ⟨rfl, rfl⟩ := Prod.mk.inj (Option.some.inj h)
      rw [if_pos hc]
    · rename_i hc
      obtain ⟨⟨args', after'⟩, h', heq⟩ := Option.map_eq_some_iff.1 h
      obtain ⟨rfl, rfl⟩ := Prod.mk.inj heq
      rw [if_neg hc, ih h']
      rfl

theorem closeFrom_of_passes (h : Passes false n t m) :
    closeFrom n (t ++ rest) = (closeFrom m rest).map fun (a, r) => (t ++ a, r) := by
  obtain ⟨rfl, -, hparen⟩ := passes_iff.1 h
  exact closeFrom_of_hides hparen

/-- A list that is passed over ends at the parenthesis behind it. -/
theorem arguments?_of_passes (h : Passes false top t top) :
    arguments? (t ++ ')' :: rest) = some (t, rest) := by
  rw [arguments?, closeFrom_of_passes h]
  simp [closeFrom]

theorem arguments?_word (ht : ∀ c ∈ t, Unicode.isWord c) :
    arguments? (t ++ ')' :: rest) = some (t, rest) := arguments?_of_passes (passes_of_isWord ht)

theorem arguments?_quoted {marks : Text} (hm : ∀ c ∈ marks, c.isAlpha) (hq : isQuote quote)
    (ht : IsBody quote t) :
    arguments? (marks ++ quote :: (t ++ quote :: ')' :: rest)) =
      some (marks ++ quote :: (t ++ [quote]), rest) := by
  have hmarks : Passes false top marks top :=
    passes_of_isWord fun c hc => Unicode.isWord_of_isAlpha (hm c hc)
  have h : arguments? ((marks ++ quote :: (t ++ [quote])) ++ ')' :: rest) =
      some (marks ++ quote :: (t ++ [quote]), rest) :=
    arguments?_of_passes (hmarks.append (passes_quoted hq ht))
  simpa using h

/-! ### Pieces -/

/-- A text with its commas hidden is one piece. -/
theorem piecesFrom_eq_singleton (ht : Hides angle ',' n t) : piecesFrom angle n t = [t] := by
  have h := @piecesFrom_of_hides angle n t [] ht
  rwa [List.append_nil, piecesFrom, List.modifyHead_cons, List.append_nil] at h

theorem split_eq_singleton (ht : Hides angle ',' top t) (hne : t ≠ []) (htrim : t.trim = t) :
    split angle t = [t] := by
  rw [split, Text.isBlank_eq_false hne htrim, piecesFrom_eq_singleton ht]
  simp [htrim]

theorem split_of_notMem (ht : ',' ∉ t) (hne : t ≠ []) (htrim : t.trim = t) : split angle t = [t] :=
  split_eq_singleton (hides_of_notMem ht) hne htrim

theorem length_split_le (angle : Bool) (t : Text) :
    (split angle t).length ≤ (piecesFrom angle top t).length := by
  unfold split
  split <;> simp

/-- Texts with their commas hidden, of which only the last one leaves something open, are the pieces of
their list. -/
theorem piecesFrom_intercalate {p : Text} {ps : List Text}
    (hcommas : ∀ q ∈ p :: ps, Hides angle ',' top q)
    (hclosed : ∀ q ∈ (p :: ps).dropLast, after angle top q = top) :
    piecesFrom angle top (List.intercalate [',', ' '] (p :: ps)) = p :: ps.map (' ' :: ·) := by
  induction ps generalizing p with
  | nil => simpa using piecesFrom_eq_singleton (hcommas p (by simp))
  | cons q ps ih =>
    have hblank : top.step angle ' ' = top := step_of_notMem_signs (by decide)
    rw [List.forall_mem_cons] at hcommas
    rw [List.dropLast_cons_of_ne_nil (by simp), List.forall_mem_cons] at hclosed
    have hrest : piecesFrom angle top (',' :: ' ' :: List.intercalate [',', ' '] (q :: ps)) =
        [] :: (' ' :: q) :: ps.map (' ' :: ·) := by
      rw [piecesFrom, if_pos ⟨rfl, rfl⟩, piecesFrom, if_neg (by simp), hblank, ih hcommas.2 hclosed.2]
      rfl
    rw [List.intercalate_cons_cons, List.append_assoc, piecesFrom_of_hides hcommas.1, hclosed.1]
    simp [hrest]

/-- Such a list is split into the same texts, trimmed, unless it is one blank text. -/
theorem split_intercalate_trim {ps : List Text} (hcommas : ∀ p ∈ ps, Hides angle ',' top p)
    (hclosed : ∀ p ∈ ps.dropLast, after angle top p = top)
    (hsingle : ∀ p, ps = [p] → p.isBlank = false) :
    split angle (List.intercalate [',', ' '] ps) = ps.map Text.trim := by
  cases ps with
  | nil => rfl
  | cons p ps =>
    have htrim : ∀ q ∈ ps, Text.trim (' ' :: q) = q.trim := fun q _ =>
      @Text.trim_blank_append [' '] rfl q
    have hblank : Text.isBlank (List.intercalate [',', ' '] (p :: ps)) = false := by
      cases ps with
      | nil => simpa using hsingle p rfl
      | cons q ps =>
        refine Bool.eq_false_iff.2 fun h => Text.notMem_of_isBlank (c := ',') h (by decide) ?_
        rw [List.intercalate_cons_cons]
        simp
    rw [split, hblank, if_neg Bool.false_ne_true, piecesFrom_intercalate hcommas hclosed, List.map_cons,
      List.map_map, List.map_cons]
    exact congrArg _ (List.map_congr_left htrim)

/-- **Trimmed texts that are passed over are what their list, joined with commas, is split into.** -/
theorem split_intercalate {ps : List Text}
    (h : ∀ p ∈ ps, p.IsTrimmed ∧ Passes angle top p top) :
    split angle (List.intercalate [',', ' '] ps) = ps := by
  have hpasses : ∀ p ∈ ps, after angle top p = top ∧ Hides angle ',' top p := fun p hp =>
    (passes_iff.1 (h p hp).2).imp_right And.left
  have hsplit : split angle (List.intercalate [',', ' '] ps) = ps.map Text.trim := by
    refine split_intercalate_trim (fun p hp => (hpasses p hp).2)
      (fun p hp => (hpasses p (List.dropLast_subset _ hp)).1) ?_
    rintro p rfl
    exact (h p (by simp)).1.isBlank_eq_false
  rw [hsplit]
  exact (List.map_congr_left fun p hp => (h p hp).1.trim_eq).trans (List.map_id' ps)

/-- **Texts with their commas hidden, whatever brackets are open behind them, are at most as many pieces**,
and as many only if nothing is open behind each of them. -/
theorem length_piecesFrom_intercalate {ps : List Text} (hne : ps ≠ [])
    (hcommas : ∀ p ∈ ps, Hides angle ',' top p)
    (houtside : ∀ p ∈ ps.dropLast, (after angle top p).quoting = .outside) (hn : n.quoting = .outside) :
    (piecesFrom angle n (List.intercalate [',', ' '] ps)).length ≤ ps.length ∧
      (n = top → (piecesFrom angle n (List.intercalate [',', ' '] ps)).length = ps.length →
        ∀ p ∈ ps.dropLast, after angle top p = top) := by
  have hpieces : ∀ {n : Nesting} {p rest : Text}, n.quoting = .outside → Hides angle ',' top p →
      (piecesFrom angle n (p ++ rest)).length = (piecesFrom angle (after angle n p) rest).length :=
    fun hn hp => by rw [piecesFrom_of_hides (hp.of_deeper hn (Nat.zero_le _)), List.length_modifyHead]
  induction ps generalizing n with
  | nil => exact absurd rfl hne
  | cons p ps ih =>
    rw [List.forall_mem_cons] at hcommas
    by_cases hps : ps = []
    · subst hps
      have hone := @hpieces n p [] hn hcommas.1
      rw [List.append_nil] at hone
      simp [hone, piecesFrom]
    · obtain ⟨q, qs, hqs⟩ := List.exists_cons_of_ne_nil hps
      have hbetween : List.intercalate [',', ' '] (p :: ps) =
          p ++ ',' :: ' ' :: List.intercalate [',', ' '] ps := by simp [hqs]
      rw [List.dropLast_cons_of_ne_nil hps, List.forall_mem_cons] at houtside ⊢
      have hplain : ∀ c ∈ [',', ' '], ∀ k : Nesting, k.quoting = .outside → k.step angle c = k := by
        rintro c hc ⟨quoting, depth⟩ rfl
        have hc : c = ',' ∨ c = ' ' := by simpa using hc
        rcases hc with rfl | rfl <;> simp [step, Quoting.step, isQuote, backtick, isOpening, isClosing]
      have hout : (after angle n p).quoting = .outside := by
        rw [quoting_after, hn]
        exact (quoting_after angle top p).symm.trans houtside.1
      rw [hbetween, hpieces hn hcommas.1, piecesFrom, List.length_cons]
      by_cases htop : after angle n p = top
      · -- the comma ends a piece
        obtain ⟨hle, heq⟩ := ih hps hcommas.2 houtside.2 (n := top) rfl
        rw [if_pos ⟨htop, rfl⟩, piecesFrom, if_neg (by simp), hplain ' ' (by simp) top rfl,
          List.length_cons, List.length_modifyHead]
        refine ⟨Nat.succ_le_succ hle, ?_⟩
        rintro rfl hlength
        exact ⟨htop, heq rfl (Nat.succ.inj hlength)⟩
      · -- the comma is not seen
        rw [if_neg fun h => htop h.1, hplain ',' (by simp) _ hout, piecesFrom, if_neg fun h => htop h.1,
          hplain ' ' (by simp) _ hout, List.length_modifyHead, List.length_modifyHead]
        have hle := (ih hps hcommas.2 houtside.2 hout).1
        exact ⟨by omega, fun _ hlength => by omega⟩

end DryRun.Nesting
