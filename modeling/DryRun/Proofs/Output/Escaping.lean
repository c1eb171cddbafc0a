import DryRun.Proofs.Output.Escapes
import DryRun.Proofs.Template.Pass

/-!
# Printing undoes escaping

A text is written as a literal with a backslash in front of what would otherwise mean something there.
Each of its characters becomes one pair or stays itself (`escapeOf_cases`), and the three scans that a
printed literal goes through read it in these units: no quote closes the body (`isBody_escape`), no
marker opens in it (`opensNoMarker_escape`), and its escapes resolve to the text
(`resolveEscapes_escape`).  So every language prints the literal as the text
(`printedArgument_escaped`).
-/

namespace DryRun

open StringLiteral

variable {language : Language} {b : Bindings} {c d : Char} {t : Text}

/-! ### Writing a text as a literal -/

/-- A character as it is written in a literal. -/
def escapeOf (c : Char) : Text :=
  if c = '\n' then ['\\', 'n']
  else if c = '\t' then ['\\', 't']
  else if c = '\\' ∨ c = '"' ∨ c = '$' then ['\\', c]
  else [c]

/-- A text with an escape for each backslash, double quote, dollar sign, line feed and tab. -/
def escape (t : Text) : Text := t.flatMap escapeOf

theorem escape_cons : escape (c :: t) = escapeOf c ++ escape t := List.flatMap_cons

/-- The literal that stands for a text. -/
def escapedLiteral (t : Text) : Text := '"' :: (escape t ++ ['"'])

/-- A character becomes a pair that stands for it, or stays as it is and means nothing else. -/
theorem escapeOf_cases (c : Char) :
    (∃ d, escapeOf c = ['\\', d] ∧ escapeText d = [c] ∧ d ≠ '(') ∨
      (escapeOf c = [c] ∧ c ≠ '\\' ∧ c ≠ '"' ∧ c ≠ '$') := by
  unfold escapeOf
  split
  · rename_i hc
    exact Or.inl ⟨'n', rfl, by rw [hc]; rfl, by decide⟩
  · split
    · rename_i hc
      exact Or.inl ⟨'t', rfl, by rw [hc]; rfl, by decide⟩
    · split
      · rename_i hc
        refine Or.inl ⟨c, rfl, ?_⟩
        rcases hc with rfl | rfl | rfl <;> decide
      · rename_i hc
        simp only [not_or] at hc
        exact Or.inr ⟨rfl, hc⟩

/-! ### The three scans -/

theorem isBody_escape (t : Text) : IsBody '"' (escape t) := by
  induction t with
  | nil => exact .nil
  | cons c t ih =>
    rw [escape_cons]
    rcases escapeOf_cases c with ⟨d, hc, -, -⟩ | ⟨hc, hback, hquote, -⟩
    · rw [hc]
      exact .pair d ih
    · rw [hc]
      exact .one hback hquote ih

/-- No marker opens with a pair, unless its second character is a parenthesis. -/
theorem opensMarker_pair (hd : d ≠ '(') : language.opensMarker ('\\' :: d :: t) = false := by
  unfold Language.opensMarker
  split <;> simp_all

/-- No marker opens in the literal.  In Python a brace would open one. -/
theorem opensNoMarker_escape (hl : language ≠ .python) (t : Text) :
    language.opensNoMarker (escape t) := by
  induction t with
  | nil => rfl
  | cons c t ih =>
    rw [escape_cons]
    rcases escapeOf_cases c with ⟨d, hc, -, hd⟩ | ⟨hc, hback, -, hdollar⟩
    · rw [hc]
      exact opensNoMarker_pair_iff.2 ⟨opensMarker_pair hd, ih⟩
    · rw [hc]
      exact (opensNoMarker_cons_iff hback).2 ⟨opensMarker_eq_false hl hback hdollar, ih⟩

/-- Each escape stands for the character that it was written for. -/
theorem resolveEscapes_escape (t : Text) : resolveEscapes (escape t) = t := by
  induction t with
  | nil => rfl
  | cons c t ih =>
    rw [escape_cons]
    rcases escapeOf_cases c with ⟨d, hc, hd, -⟩ | ⟨hc, hback, -, -⟩
    · rw [hc, List.cons_append, List.cons_append, List.nil_append, resolveEscapes, hd, ih]
      rfl
    · rw [hc, List.cons_append, List.nil_append, resolveEscapes_cons hback, ih]

/-! ### Printing -/

/-- **Printing undoes escaping**, whatever the text, the language and the bindings are.  In the
languages in which a backslash takes a character along, nothing in the escaped text is found to be a
marker: all matches are without groups. -/
theorem printedArgument_escaped (language : Language) (b : Bindings) (t : Text) :
    printedArgument language b (escapedLiteral t) = t ∧
      ∀ s ∈ language.templates, language = .python ∨ ∀ m ∈ s.marker.findAll (escape t), m.groups = [] := by
  constructor
  · have hfilled : isTemplate language ⟨[], '"', escape t⟩ →
        fillTemplate language b (escape t) = escape t := by
      intro htemplate
      have hl : language ≠ .python := by
        rintro rfl
        cases htemplate
      exact fillTemplate_of_isUnmarked ((isUnmarked_iff hl).2 (opensNoMarker_escape hl t))
    rw [escapedLiteral, printedArgument_unfilled (isBody_escape t) hfilled, resolveEscapes_escape]
  · intro s hs
    by_cases hl : language = .python
    · exact Or.inl hl
    · exact Or.inr (groups_of_mem_findFrom hs hl (opensNoMarker_escape hl t))

end DryRun
