import Mathlib.Data.List.Forall2
import DryRun.Proofs.Comment.Scan

/-!
# What is left without comments

A second scan of what the first one has kept is, behind each character, where the first one is, or in
code where the first one is in a comment or has a `/` pending (`Mode.again`).  So it keeps everything:
dropping comments twice is dropping them once.  A character that is dropped is never a line feed, so
every line keeps its place, and what is left of it is a subsequence (`IsLeftByLine`).
-/

namespace DryRun

/-- Whether a text has as many lines as another one, and each of them is a subsequence of the line in its
place. -/
def IsLeftByLine (s t : Text) : Prop := List.Forall₂ List.Sublist (s.splitOn '\n') (t.splitOn '\n')

namespace IsLeftByLine

variable {s t : Text} {c : Char}

theorem refl (t : Text) : IsLeftByLine t t := List.forall₂_same.2 fun line _ => List.Sublist.refl line

theorem exists_lines (h : IsLeftByLine s t) : ∃ line lines line' lines',
    s.splitOn '\n' = line :: lines ∧ t.splitOn '\n' = line' :: lines' ∧ line.Sublist line' ∧
      List.Forall₂ List.Sublist lines lines' := by
  obtain ⟨line, lines, hs⟩ := List.exists_cons_of_ne_nil (Text.splitOn_ne_nil '\n' s)
  obtain ⟨line', lines', ht⟩ := List.exists_cons_of_ne_nil (Text.splitOn_ne_nil '\n' t)
  rw [IsLeftByLine, hs, ht] at h
  obtain ⟨hline, hlines⟩ := List.forall₂_cons.1 h
  exact ⟨line, lines, line', lines', hs, ht, hline, hlines⟩

theorem cons (c : Char) (h : IsLeftByLine s t) : IsLeftByLine (c :: s) (c :: t) := by
  by_cases hc : c = '\n'
  · simpa [IsLeftByLine, Text.splitOn, hc] using h
  · obtain ⟨line, lines, line', lines', hs, ht, hline, hlines⟩ := h.exists_lines
    simp only [IsLeftByLine, Text.splitOn, if_neg hc, hs, ht, List.modifyHead_cons]
    exact .cons (hline.cons_cons c) hlines

theorem skip (hc : c ≠ '\n') (h : IsLeftByLine s t) : IsLeftByLine s (c :: t) := by
  obtain ⟨line, lines, line', lines', hs, ht, hline, hlines⟩ := h.exists_lines
  simp only [IsLeftByLine, Text.splitOn, if_neg hc, hs, ht, List.modifyHead_cons]
  exact .cons (hline.cons c) hlines

theorem append_left (u : Text) (h : IsLeftByLine s t) : IsLeftByLine (u ++ s) (u ++ t) := by
  induction u with
  | nil => exact h
  | cons c u ih => exact ih.cons c

theorem count_eq (h : IsLeftByLine s t) : s.count '\n' = t.count '\n' := by
  have hlines : ∀ t : Text, (t.splitOn '\n').length = t.count '\n' + 1 := by
    intro t
    induction t with
    | nil => rfl
    | cons c t ih => by_cases hc : c = '\n' <;> simp [Text.splitOn, hc, ih]
  have hlength := List.Forall₂.length_eq h
  rw [hlines, hlines] at hlength
  exact Nat.succ.inj hlength

end IsLeftByLine

namespace Comment

variable {style : CommentStyle} {mode : Mode}

/-- Where a scan of what was kept so far stands. -/
def Mode.again : Mode → Mode
  | .literal q => .literal q
  | .escape q => .escape q
  | .code | .slash | .line | .block _ => .code

/-- Code is kept again, apart from a `/` that is pending. -/
theorem again_stepCode (c : Char) :
    keptOf style .code (stepCode style c).2 = (stepCode style c).2 ∧
      modeFrom style .code (stepCode style c).2 = (stepCode style c).1.again := by
  cases style <;> simp only [stepCode] <;> split_ifs <;>
    simp [keptOf, step, stepCode, Mode.again, *]

/-- **A second scan keeps what the first one keeps of a character**, and goes along with it. -/
theorem again_step (hstyle : mode = .slash → style = .slash) (c : Char) :
    keptOf style mode.again (step style mode c).2 = (step style mode c).2 ∧
      modeFrom style mode.again (step style mode c).2 = (step style mode c).1.again := by
  have hbreak : keptOf style .code ['\n'] = ['\n'] ∧ modeFrom style .code ['\n'] = .code :=
    keptOf_plain style (by simp [isPlain, isQuote, backtick])
  cases mode with
  | code => exact again_stepCode c
  | slash =>
    obtain rfl := hstyle rfl
    by_cases hline : c = '/'
    · simp [step, hline, keptOf, Mode.again]
    by_cases hblock : c = '*'
    · simp [step, hblock, keptOf, Mode.again]
    -- the `/` that was pending stands before the same character as in the text
    have hslash : step .slash .code '/' = (.slash, []) := rfl
    by_cases hq : isQuote c
    · have hnext : step .slash .slash c = (.literal c, ['/', c]) := by simp [step, stepCode, *]
      simp [hnext, hslash, keptOf, Mode.again]
    · have hnext : step .slash .slash c = (.code, ['/', c]) := by simp [step, stepCode, *]
      simp [hnext, hslash, keptOf, Mode.again]
  | literal q =>
    have hnext : (step style (.literal q) c).2 = [c] ∧
        (step style (.literal q) c).1.again = (step style (.literal q) c).1 := by
      simp only [step]
      split_ifs <;> exact ⟨rfl, rfl⟩
    have hself : (Mode.literal q).again = .literal q := rfl
    simp [hself, hnext, keptOf]
  | escape q => exact ⟨rfl, rfl⟩
  | line =>
    by_cases hc : c = '\n'
    · simpa [step, hc, Mode.again] using hbreak
    · simp [step, hc, keptOf, Mode.again]
  | block star =>
    by_cases hc : c = '\n'
    · simpa [step, hc, Mode.again] using hbreak
    · simp only [step, if_neg hc]
      split_ifs <;> exact ⟨rfl, rfl⟩

/-- A second scan keeps everything, from wherever the first one began. -/
theorem keptFrom_again (t : Text) (hstyle : mode = .slash → style = .slash) :
    keptFrom style mode.again (keptFrom style mode t) = keptFrom style mode t := by
  induction t generalizing mode with
  | nil =>
    cases mode with
    | slash =>
      obtain rfl := hstyle rfl
      rfl
    | _ => rfl
  | cons c t ih =>
    obtain ⟨hkept, hmode⟩ := again_step hstyle c
    rw [keptFrom, keptFrom_append, hkept, hmode, ih fun h => (of_step_eq_slash h).1]

/-- **Of a character and a `/` that was pending the scan keeps everything**, now or later, or nothing, and
then the character is no line feed. -/
theorem kept_or_dropped (hstyle : mode = .slash → style = .slash) (c : Char) :
    (step style mode c).2 ++ atEnd (step style mode c).1 = atEnd mode ++ [c] ∨
      c ≠ '\n' ∧ (step style mode c).2 = [] ∧ atEnd (step style mode c).1 = [] := by
  have hcode : ∀ {c : Char}, (stepCode style c).2 ++ atEnd (stepCode style c).1 = [c] ∨
      c ≠ '\n' ∧ (stepCode style c).2 = [] ∧ atEnd (stepCode style c).1 = [] := by
    intro c
    cases style <;> simp only [stepCode] <;> split_ifs <;> simp [atEnd, *]
  cases mode with
  | code => exact hcode
  | slash =>
    obtain rfl := hstyle rfl
    simp only [step]
    -- the `/` begins a comment and is dropped, or it was code
    split_ifs with hline hblock
    · exact Or.inr ⟨by simp [hline], rfl, rfl⟩
    · exact Or.inr ⟨by simp [hblock], rfl, rfl⟩
    · refine Or.inl ?_
      simp only [stepCode]
      split_ifs <;> rfl
  | literal q =>
    simp only [step]
    split_ifs <;> exact Or.inl rfl
  | escape q => exact Or.inl rfl
  | line =>
    simp only [step]
    split_ifs with hc
    · exact Or.inl rfl
    · exact Or.inr ⟨hc, rfl, rfl⟩
  | block star =>
    simp only [step]
    split_ifs with hc hend
    · exact Or.inl rfl
    · exact Or.inr ⟨hc, rfl, rfl⟩
    · exact Or.inr ⟨hc, rfl, rfl⟩

/-- What a scan keeps is left by line of the text to come and of a `/` that is pending. -/
theorem isLeftByLine_keptFrom (t : Text) (hstyle : mode = .slash → style = .slash) :
    IsLeftByLine (keptFrom style mode t) (atEnd mode ++ t) := by
  induction t generalizing mode with
  | nil =>
    rw [keptFrom, List.append_nil]
    exact IsLeftByLine.refl _
  | cons c t ih =>
    have ih := ih fun h : (step style mode c).1 = .slash => (of_step_eq_slash h).1
    rw [keptFrom]
    rcases kept_or_dropped hstyle c with hall | ⟨hc, hkept, hpending⟩
    · have h := ih.append_left (step style mode c).2
      rw [← List.append_assoc, hall] at h
      simpa using h
    · rw [hpending, List.nil_append] at ih
      rw [hkept, List.nil_append]
      cases mode with
      | slash => exact (ih.skip hc).skip (by decide)
      | _ => exact ih.skip hc

end Comment

/-- **Dropping comments twice is dropping them once, and every line keeps its place**: the text has as
many line feeds as the snippet, and each of its lines is a subsequence of the snippet's line. -/
theorem withoutComments_idempotent_and_isLeftByLine (language : Language) (t : Text) :
    withoutComments language (withoutComments language t) = withoutComments language t ∧
      (withoutComments language t).count '\n' = t.count '\n' ∧
      List.Forall₂ List.Sublist ((withoutComments language t).splitOn '\n') (t.splitOn '\n') := by
  have hcode : Comment.Mode.code = .slash → language.commentStyle = .slash := fun h => by cases h
  have hleft : IsLeftByLine (withoutComments language t) t := Comment.isLeftByLine_keptFrom t hcode
  exact ⟨Comment.keptFrom_again t hcode, hleft.count_eq, hleft⟩

end DryRun
