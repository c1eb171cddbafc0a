import DryRun.Prediction
import DryRun.Proofs.Comment.Scan

/-!
# Comments change nothing

A comment may be put wherever the scan for comments stands in code: a line comment at the end of a
line, a block comment anywhere, of which only the line feeds remain.  The text that predictions are
made from is then the same (`withoutComments_line`, `withoutComments_block`), so the snippet prints
the same and binds the same names, whatever the comment says.
-/

namespace DryRun

/-- What begins a comment that runs to the end of the line. -/
def CommentStyle.lineMark : CommentStyle → Text
  | .hash => ['#']
  | .slash => ['/', '/']

namespace Comment

variable {style : CommentStyle}

theorem keptOf_lineMark : keptOf style .code style.lineMark = [] := by cases style <;> rfl

theorem modeFrom_lineMark : modeFrom style .code style.lineMark = .line := by cases style <;> rfl

/-- What a text keeps depends on the text before it only by the mode. -/
theorem keptFrom_congr {a s t : Text}
    (h : keptFrom style (modeAfter style a) s = keptFrom style (modeAfter style a) t) :
    keptFrom style .code (a ++ s) = keptFrom style .code (a ++ t) := by
  rw [keptFrom_append, keptFrom_append]
  exact congrArg (keptOf style .code a ++ ·) h

theorem keptFrom_lineComment {c : Text} (hc : '\n' ∉ c) (b : Text) :
    keptFrom style .code (style.lineMark ++ (c ++ '\n' :: b)) =
      keptFrom style .code ('\n' :: b) := by
  obtain ⟨hk, hm⟩ := keptOf_line style hc
  have hbreak : step style .line '\n' = step style .code '\n' := by cases style <;> rfl
  rw [keptFrom_append, keptOf_lineMark, modeFrom_lineMark, keptFrom_append, hk, hm]
  simp only [keptFrom, hbreak, List.nil_append]

theorem keptFrom_blockComment {c : Text} (hc : ¬ ['*', '/'] <:+: c) (b : Text) :
    keptFrom .slash .code ('/' :: '*' :: (c ++ ['*', '/'] ++ b)) =
      keptFrom .slash .code (c.filter (· == '\n') ++ b) := by
  obtain ⟨hk, hm⟩ := keptOf_block .slash false hc (by simp)
  obtain ⟨hk', hm'⟩ := keptOf_plain .slash (t := c.filter (· == '\n')) fun d hd => by
    obtain rfl : d = '\n' := by simpa using (List.mem_filter.1 hd).2
    rfl
  have hopen : keptFrom .slash .code ('/' :: '*' :: (c ++ ['*', '/'] ++ b)) =
      keptFrom .slash (.block false) (c ++ ['*', '/'] ++ b) := rfl
  rw [hopen, keptFrom_append, hk, hm, keptFrom_append, hk', hm']

end Comment

open Comment

theorem withoutComments_line (language : Language) {a c : Text}
    (ha : modeAfter language.commentStyle a = .code) (hc : '\n' ∉ c) (b : Text) :
    withoutComments language (a ++ language.commentStyle.lineMark ++ c ++ '\n' :: b) =
      withoutComments language (a ++ '\n' :: b) := by
  simp only [withoutComments, List.append_assoc]
  refine keptFrom_congr ?_
  rw [ha]
  exact keptFrom_lineComment hc b

/-- A block comment leaves its line feeds. -/
theorem withoutComments_block {language : Language} (hl : language ≠ .python) {a c : Text}
    (ha : modeAfter language.commentStyle a = .code) (hc : ¬ ['*', '/'] <:+: c) (b : Text) :
    withoutComments language (a ++ ['/', '*'] ++ c ++ ['*', '/'] ++ b) =
      withoutComments language (a ++ c.filter (· == '\n') ++ b) := by
  have hs : language.commentStyle = .slash := by cases language <;> first | rfl | exact absurd rfl hl
  simp only [withoutComments, List.append_assoc]
  rw [hs] at ha ⊢
  refine keptFrom_congr ?_
  rw [ha]
  simpa using keptFrom_blockComment hc b

/-! ### Predictions -/

/-- Two snippets that no prediction tells apart: both print the same or fail for the same reason,
and their names have the same values. -/
def SamePrediction (language : Language) (s t : Text) : Prop :=
  predict language s = predict language t ∧ bindingsOf language s = bindingsOf language t

theorem samePrediction_of_withoutComments {language : Language} {s t : Text}
    (h : withoutComments language s = withoutComments language t) : SamePrediction language s t :=
  ⟨by simp only [predict, h], by simp only [bindingsOf, h]⟩

/-- **Inserting a comment changes no prediction.**  Where the scan stands outside literals and
comments, and not behind a `/` with which the comment would begin too early, a line comment may end
any line and a block comment may stand anywhere in place of its line feeds. -/
theorem samePrediction_insert_comment (language : Language) {a : Text}
    (ha : (modeAfter language.commentStyle a).isOutside)
    (hs : language = .python ∨ a.getLast? ≠ some '/') (c b : Text) :
    ('\n' ∉ c →
      SamePrediction language (a ++ language.commentStyle.lineMark ++ c ++ '\n' :: b)
        (a ++ '\n' :: b)) ∧
    (language ≠ .python → ¬ ['*', '/'] <:+: c →
      SamePrediction language (a ++ ['/', '*'] ++ c ++ ['*', '/'] ++ b)
        (a ++ c.filter (· == '\n') ++ b)) := by
  have hcode : modeAfter language.commentStyle a = .code := by
    refine modeAfter_eq_code ha (hs.imp_left ?_)
    rintro rfl
    rfl
  constructor
  · intro hc
    exact samePrediction_of_withoutComments (withoutComments_line language hcode hc b)
  · intro hl hc
    exact samePrediction_of_withoutComments (withoutComments_block hl hcode hc b)

/-- A comment full of quotes, slashes and a call, after a literal that holds a comment's opening. -/
theorem samePrediction_insert_comment_quotes :
    let a := "val s = \"//\" ".toList
    let c := " \"println(s) '/* ".toList
    let b := "println(s)".toList
    (modeAfter Language.kotlin.commentStyle a).isOutside ∧ a.getLast? ≠ some '/' ∧ '\n' ∉ c ∧
      ¬ ['*', '/'] <:+: c ∧
      SamePrediction .kotlin (a ++ "//".toList ++ c ++ '\n' :: b) (a ++ '\n' :: b) ∧
      SamePrediction .kotlin (a ++ "/*".toList ++ c ++ "*/".toList ++ b) (a ++ b) := by
  refine ⟨by decide, by decide, by decide, by decide, ?_, ?_⟩
  · exact (samePrediction_insert_comment .kotlin (by decide) (by decide) _ _).1 (by decide)
  · exact (samePrediction_insert_comment .kotlin (by decide) (by decide) _ _).2 (by decide) (by decide)

end DryRun
