import DryRun.Proofs.Comment.Scan
import DryRun.Proofs.Output.Places

/-!
# Printing calls and literals

`Quoting.after` tells whether a text ends inside a literal, by the rules of the scan for comments: a
backslash takes the next character along, and a line feed ends a literal in `"` or `'`.  The search
for printing calls does not go by it.  So the calls that are found lie outside all literals exactly if
no literal of the text spells a call with a closed argument list (`placedCalls_outside_iff`).
-/

namespace DryRun

open Comment

namespace Quoting

/-- Where a scan stands after a character, if a line feed ends all literals but those in
backticks. -/
def stepLine : Quoting → Char → Quoting
  | outside, c => if isQuote c then inside c else outside
  | inside q, c =>
    if c = '\\' then escaped q
    else if c = q ∨ c = '\n' ∧ q ≠ backtick then outside
    else inside q
  | escaped q, _ => inside q

/-- Where a scan stands after a text. -/
def after (t : Text) : Quoting := t.foldl stepLine outside

theorem after_concat (t : Text) (c : Char) : after (t ++ [c]) = (after t).stepLine c := by
  simp [after, List.foldl_append]

/-- What the scan for comments knows of literals, unless it is in a comment. -/
def ofMode? : Mode → Option Quoting
  | .code | .slash => some outside
  | .literal q => some (inside q)
  | .escape q => some (escaped q)
  | .line | .block _ => none

theorem stepLine_of_ofMode? {style : CommentStyle} {mode : Mode} {c : Char} {s s' : Quoting}
    (h : ofMode? mode = some s) (h' : ofMode? (Comment.step style mode c).1 = some s') :
    s' = s.stepLine c := by
  have hcode : ∀ {s' : Quoting}, ofMode? (stepCode style c).1 = some s' → s' = stepLine outside c := by
    intro s' h'
    simp only [stepLine]
    cases style <;> simp only [stepCode] at h' <;> split_ifs at h' ⊢ <;>
      simp_all [ofMode?]
  cases mode with
  | code =>
    obtain rfl : outside = s := by simpa [ofMode?] using h
    exact hcode h'
  | slash =>
    -- a comment that begins here has no place in a literal
    obtain rfl : outside = s := by simpa [ofMode?] using h
    simp only [Comment.step] at h'
    split_ifs at h'
    · cases h'
    · cases h'
    · exact hcode h'
  | literal q =>
    obtain rfl : inside q = s := by simpa [ofMode?] using h
    simp only [Comment.step] at h'
    simp only [stepLine]
    split_ifs at h' ⊢ <;> simpa [ofMode?] using h'.symm
  | escape q =>
    obtain rfl : escaped q = s := by simpa [ofMode?] using h
    simpa [ofMode?, Comment.step, stepLine] using h'.symm
  | line => cases h
  | block star => cases h

/-- On a text in which it meets no comment, the scan for comments is in a literal exactly where this
scan is. -/
theorem ofMode?_modeAfter {style : CommentStyle} {t : Text}
    (h : ∀ u, u <+: t → ofMode? (modeAfter style u) ≠ none) :
    ofMode? (modeAfter style t) = some (after t) := by
  induction t using List.reverseRecOn with
  | nil => rfl
  | append_singleton t c ih =>
    have ht := ih fun u hu => h u (hu.trans (List.prefix_append t [c]))
    obtain ⟨s, hs⟩ := Option.ne_none_iff_exists'.1 (h _ (List.prefix_refl (t ++ [c])))
    rw [hs, after_concat]
    rw [modeAfter_append] at hs
    rw [stepLine_of_ofMode? ht hs]

end Quoting

/-- **Found calls lie outside literals exactly if no literal spells a call.**  The calls that print,
with their places, all begin outside the literals of a text if and only if nowhere in a literal the
text reads as a call. -/
theorem placedCalls_outside_iff (language : Language) (t : Text) :
    (placedCalls language t).map Prod.snd = printCalls language t ∧
      ((∀ p ∈ placedCalls language t, Quoting.after p.1 = .outside) ↔
        ∀ before after call, t = before ++ after → PrintCall.SpelledAt call language before after →
          Quoting.after before = .outside) := by
  refine ⟨map_snd_placedCalls language t, ?_⟩
  constructor
  · intro h before after call ht hcall
    exact h (before, call) (mem_placedCalls_iff.2 ⟨after, ht, hcall⟩)
  · rintro h ⟨before, call⟩ hp
    obtain ⟨after, ht, hcall⟩ := mem_placedCalls_iff.1 hp
    exact h before after call ht hcall

/-- A message that mentions a call is taken for one. -/
theorem not_placedCalls_outside :
    ¬ ∀ (language : Language) (t : Text),
      ∀ p ∈ placedCalls language t, Quoting.after p.1 = .outside := by
  intro h
  have hmem : ("println(\"say ".toList, ⟨"println".toList, "1".toList⟩) ∈
      placedCalls .kotlin "println(\"say println(1)\")".toList := by decide
  exact absurd (h _ _ _ hmem) (by decide)

end DryRun
