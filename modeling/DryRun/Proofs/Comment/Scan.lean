import Mathlib.Data.List.Infix
import Mathlib.Tactic.SplitIfs
import DryRun.Proofs.StringLiteral

/-!
# Comment scans in parts

A scan for comments can be cut anywhere: what it keeps of `s ++ t` is what it keeps of `s`
(`keptOf`) and then what it keeps of `t` from the mode in which `s` leaves it (`modeFrom`).  The
lemmas here say both for the stretches that matter: plain code, a literal and a comment, each up to
its end.
-/

namespace DryRun.Comment

open StringLiteral (body_induction endsOpen endsOpen_cons isQuote_ne)

variable {style : CommentStyle}

/-- What the scan is in after a text that it enters in some mode. -/
def modeFrom (style : CommentStyle) (mode : Mode) (t : Text) : Mode :=
  t.foldl (fun mode c => (step style mode c).1) mode

/-- What the scan keeps of a text before it knows what follows. -/
def keptOf (style : CommentStyle) (mode : Mode) : Text → Text
  | [] => []
  | c :: rest => (step style mode c).2 ++ keptOf style (step style mode c).1 rest

@[simp] theorem modeFrom_nil (mode : Mode) : modeFrom style mode [] = mode := rfl

@[simp] theorem modeFrom_cons (mode : Mode) (c : Char) (t : Text) :
    modeFrom style mode (c :: t) = modeFrom style (step style mode c).1 t := rfl

theorem modeFrom_append (mode : Mode) (s t : Text) :
    modeFrom style mode (s ++ t) = modeFrom style (modeFrom style mode s) t := by
  simp [modeFrom, List.foldl_append]

theorem modeAfter_append (s t : Text) :
    modeAfter style (s ++ t) = modeFrom style (modeAfter style s) t :=
  modeFrom_append .code s t

theorem keptFrom_append (mode : Mode) (s t : Text) :
    keptFrom style mode (s ++ t) =
      keptOf style mode s ++ keptFrom style (modeFrom style mode s) t := by
  induction s generalizing mode with
  | nil => rfl
  | cons c s ih => simp only [List.cons_append, keptFrom, keptOf, modeFrom_cons, ih,
      List.append_assoc]

theorem keptOf_append (mode : Mode) (s t : Text) :
    keptOf style mode (s ++ t) = keptOf style mode s ++ keptOf style (modeFrom style mode s) t := by
  induction s generalizing mode with
  | nil => rfl
  | cons c s ih => simp only [List.cons_append, keptOf, modeFrom_cons, ih, List.append_assoc]

/-! ### Where code ends -/

/-- Whether the scan stands outside all literals and comments. -/
def Mode.isOutside : Mode → Bool
  | .code | .slash => true
  | _ => false

/-- A step that leaves a `/` pending is one over a `/`, where that can begin a comment. -/
theorem of_step_eq_slash {mode : Mode} {c : Char} (h : (step style mode c).1 = .slash) :
    style = .slash ∧ c = '/' := by
  -- only in code does a character lead to this mode
  have hcode : (stepCode style c).1 = .slash → style = .slash ∧ c = '/' := by
    cases style <;> simp only [stepCode] <;> split_ifs with hq hc <;> simp_all
  cases mode with
  | code => exact hcode h
  | slash =>
    simp only [step] at h
    split_ifs at h
    exact hcode h
  | literal q => simp only [step] at h; split_ifs at h
  | escape q => simp [step] at h
  | line => simp only [step] at h; split_ifs at h
  | block star => simp only [step] at h; split_ifs at h

/-- A `/` is pending only right after one, and only where a `/` can begin a comment. -/
theorem getLast?_of_modeAfter_eq_slash {t : Text} (h : modeAfter style t = .slash) :
    style = .slash ∧ t.getLast? = some '/' := by
  induction t using List.reverseRecOn with
  | nil => exact absurd h (by simp [modeAfter])
  | append_singleton t c _ =>
    rw [modeAfter_append] at h
    simp only [modeFrom_cons, modeFrom_nil] at h
    obtain ⟨hstyle, rfl⟩ := of_step_eq_slash h
    exact ⟨hstyle, List.getLast?_concat⟩

/-- Outside literals and comments, and not after a `/` that may begin one, the scan is in code. -/
theorem modeAfter_eq_code {t : Text} (h : (modeAfter style t).isOutside)
    (hs : style = .hash ∨ t.getLast? ≠ some '/') : modeAfter style t = .code := by
  cases hm : modeAfter style t with
  | code => rfl
  | slash =>
    obtain ⟨h1, h2⟩ := getLast?_of_modeAfter_eq_slash hm
    rcases hs with hs | hs
    · rw [hs] at h1
      cases h1
    · exact absurd h2 hs
  | literal q => rw [hm] at h; cases h
  | escape q => rw [hm] at h; cases h
  | line => rw [hm] at h; cases h
  | block star => rw [hm] at h; cases h

/-! ### Stretches -/

/-- Whether a character begins neither a literal nor a comment, in whatever style. -/
def isPlain (c : Char) : Bool := !isQuote c && c != '/' && c != '#'

theorem isQuote_of_isPlain {c : Char} (h : isPlain c) : isQuote c = false := by
  simp only [isPlain, Bool.and_eq_true, Bool.not_eq_true'] at h
  exact h.1.1

theorem isPlain_of_class {p : Char → Bool} {c : Char}
    (hp : ∀ d ∈ ['"', '\'', backtick, '/', '#'], p d = false) (h : p c) : isPlain c := by
  have hne : ∀ d ∈ ['"', '\'', backtick, '/', '#'], c ≠ d := by
    rintro d hd rfl
    rw [hp c hd] at h
    cases h
  simp [isPlain, isQuote, hne]

theorem isPlain_of_isWhiteSpace {c : Char} (h : Unicode.isWhiteSpace c) : isPlain c :=
  isPlain_of_class (p := Unicode.isWhiteSpace) (by decide) h

theorem isPlain_of_isWord {c : Char} (h : Unicode.isWord c) : isPlain c :=
  isPlain_of_class (p := Unicode.isWord) (by decide) h

theorem stepCode_of_isPlain {c : Char} (h : isPlain c) : stepCode style c = (.code, [c]) := by
  simp only [isPlain, Bool.and_eq_true, Bool.not_eq_true', bne_iff_ne] at h
  obtain ⟨⟨hq, hs⟩, hh⟩ := h
  cases style <;> simp [stepCode, hq, hs, hh]

/-- Plain code is kept, and code it leaves. -/
theorem keptOf_plain (style : CommentStyle) : ∀ {t : Text}, (∀ c ∈ t, isPlain c) →
    keptOf style .code t = t ∧ modeFrom style .code t = .code
  | [], _ => ⟨rfl, rfl⟩
  | c :: t, h => by
    have hstep : step style .code c = (.code, [c]) := stepCode_of_isPlain (h c (by simp))
    obtain ⟨h1, h2⟩ := keptOf_plain style (t := t) fun d hd => h d (by simp [hd])
    simp only [keptOf, modeFrom_cons, hstep, h1, h2, List.singleton_append, and_self]

/-- A literal is kept up to its closing quote, whatever comment it mentions. -/
theorem keptOf_quoted {quote : Char} {t : Text} (hq : isQuote quote) (ht : quote ∉ t) (hn : '\n' ∉ t)
    (he : endsOpen t = false) :
    keptOf style (.literal quote) (t ++ [quote]) = t ++ [quote] ∧
      modeFrom style (.literal quote) (t ++ [quote]) = .code := by
  induction t using body_induction with
  | nil => simp [keptOf, step, (isQuote_ne hq).1]
  | lone => cases he
  | pair c t ih =>
    simp only [List.mem_cons, not_or] at ht hn
    obtain ⟨h1, h2⟩ := ih ht.2.2 hn.2.2 he
    simp [keptOf, step, h1, h2]
  | one c t hc ih =>
    simp only [List.mem_cons, not_or] at ht hn
    obtain ⟨h1, h2⟩ := ih ht.2 hn.2 (by rwa [endsOpen_cons hc] at he)
    simp [keptOf, step, hc, Ne.symm ht.1, Ne.symm hn.1, h1, h2]

/-- Whether the scan keeps a text of code as it is and is in code again behind it. -/
def IsKept (style : CommentStyle) (t : Text) : Prop :=
  keptOf style .code t = t ∧ modeFrom style .code t = .code

theorem isKept_of_isPlain {t : Text} (h : ∀ c ∈ t, isPlain c) : IsKept style t := keptOf_plain style h

theorem isKept_of_isBlank {t : Text} (h : t.isBlank) : IsKept style t :=
  isKept_of_isPlain fun c hc => isPlain_of_isWhiteSpace (List.all_eq_true.1 h c hc)

theorem isKept_ending {t : Text} (h : ∀ c ∈ t, c = ';' ∨ c = '}' ∨ Unicode.isWhiteSpace c) :
    IsKept style t := by
  refine isKept_of_isPlain fun c hc => ?_
  rcases h c hc with rfl | rfl | h
  · rfl
  · rfl
  · exact isPlain_of_isWhiteSpace h

theorem isKept_quoted {quote : Char} {t : Text} (hq : isQuote quote) (ht : quote ∉ t) (hn : '\n' ∉ t)
    (he : endsOpen t = false) : IsKept style (quote :: (t ++ [quote])) := by
  obtain ⟨h1, h2⟩ := @keptOf_quoted style _ _ hq ht hn he
  have hstep : step style .code quote = (.literal quote, [quote]) := by simp [step, stepCode, hq]
  simp [IsKept, keptOf, hstep, h1, h2]

theorem IsKept.append {s t : Text} (hs : IsKept style s) (ht : IsKept style t) :
    IsKept style (s ++ t) := by
  have happend : keptOf style .code (s ++ t) =
      keptOf style .code s ++ keptOf style (modeFrom style .code s) t := keptOf_append .code s t
  rw [IsKept, happend, modeFrom_append, hs.2, hs.1, ht.1, ht.2]
  exact ⟨rfl, rfl⟩

theorem IsKept.keptFrom_append {s : Text} (hs : IsKept style s) (t : Text) :
    keptFrom style .code (s ++ t) = s ++ keptFrom style .code t := by
  rw [Comment.keptFrom_append, hs.1, hs.2]

theorem IsKept.withoutComments_eq {language : Language} {t : Text}
    (h : IsKept language.commentStyle t) : withoutComments language t = t := by
  have hkept := h.keptFrom_append []
  simpa [withoutComments, keptFrom, atEnd] using hkept

/-- A line comment is dropped up to the line feed. -/
theorem keptOf_line (style : CommentStyle) : ∀ {t : Text}, '\n' ∉ t →
    keptOf style .line t = [] ∧ modeFrom style .line t = .line
  | [], _ => ⟨rfl, rfl⟩
  | c :: t, h => by
    have hc : c ≠ '\n' := fun hc => h (by simp [hc])
    obtain ⟨h1, h2⟩ := keptOf_line style (t := t) fun ht => h (by simp [ht])
    simp [keptOf, step, hc, h1, h2]

/-- **A block comment ends at its first `*/`**, and of what stands before only the line feeds are
kept.  `star` says whether a `*` stands right before the text. -/
theorem keptOf_block (style : CommentStyle) : ∀ {t : Text} (star : Bool), ¬ ['*', '/'] <:+: t →
    (star = true → t.head? ≠ some '/') →
    keptOf style (.block star) (t ++ ['*', '/']) = t.filter (· == '\n') ∧
      modeFrom style (.block star) (t ++ ['*', '/']) = .code
  | [], star, _, _ => by simp [keptOf, step]
  | c :: t, star, h, hstar => by
    have ht : ¬ ['*', '/'] <:+: t := fun ht => h (ht.trans (List.infix_cons (List.infix_refl t)))
    have hnext : ∀ {star' : Bool}, (star' = true → c = '*') → star' = true →
        t.head? ≠ some '/' := by
      intro star' hc hs hhead
      obtain rfl := hc hs
      cases t with
      | nil => cases hhead
      | cons d t =>
        simp only [List.head?_cons, Option.some.injEq] at hhead
        subst hhead
        exact h (List.IsPrefix.isInfix ⟨t, rfl⟩)
    by_cases hn : c = '\n'
    · subst hn
      obtain ⟨h1, h2⟩ := keptOf_block style false ht (by simp)
      simp [keptOf, step, h1, h2]
    · -- neither a line feed nor the end of the comment: the character is dropped
      have hend : ¬ (star = true ∧ c = '/') := fun ⟨h1, h2⟩ => hstar h1 (by simp [h2])
      obtain ⟨h1, h2⟩ := keptOf_block style (c == '*') ht (hnext (by simp))
      have hs : step style (.block star) c = (.block (c == '*'), []) := by
        simp only [step, if_neg hn, if_neg hend]
      simp only [List.cons_append, keptOf, modeFrom_cons, hs, h1, h2, List.nil_append]
      simp [hn]

end DryRun.Comment
