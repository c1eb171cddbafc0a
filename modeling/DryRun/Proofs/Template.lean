import DryRun.Output
import DryRun.Proofs.Pattern.Context
import DryRun.Proofs.Text

/-!
# Filling in templates

A text without the signs of a marker is a template that filling in leaves as it is
(`fillTemplate_eq_self`), and one that consists of a marker around a name becomes the value of the
name (`fillTemplate_marker`).  The value is not read again, whatever it holds.
-/

namespace DryRun

open Pattern Cursor

variable {language : Language} {b : Bindings} {seen w x rest rest' : Text} {g : List (Nat × Span)}

/-! ### Texts without markers -/

theorem resolve_of_no_groups : TemplateSyntax.resolve b (matchOf seen w rest []) = w := by
  have htext : (matchOf seen w rest []).text = w := Span.text_of seen w rest
  have hgroup : ∀ n, (matchOf seen w rest []).group? n = none := fun _ => rfl
  simp only [TemplateSyntax.resolve, hgroup, htext]
  rfl

/-- What a marker with an expression is written with. -/
def isMarkerSign (c : Char) : Bool := c == '$' || c == '{' || c == '('

/-- Without these signs only escapes are found, and escapes have no groups. -/
theorem groups_of_takes_marker {s : TemplateSyntax} (hs : language.templates = some s)
    (h : Takes s.marker seen w rest [] g) (hw : ∀ c ∈ w, isMarkerSign c = false) :
    w ≠ [] ∧ g = [] := by
  have hdollar : ∀ {q : Pattern} {g g' : List (Nat × Span)},
      ¬ Takes (char '$' ++ q) seen w rest g g' := by
    intro q g g' h
    obtain ⟨v, rfl, -⟩ := takes_char_append.1 h
    exact absurd (hw '$' (by simp)) (by decide)
  have hescape : Takes TemplateSyntax.escape seen w rest [] g → w ≠ [] ∧ g = [] := by
    rintro h
    obtain ⟨v, rfl, -, rfl⟩ := takes_char_append.1 h
    exact ⟨by simp, rfl⟩
  have hbraces : ¬ Takes TemplateSyntax.dollarBraces seen w rest [] g := fun h =>
    hdollar (takes_assoc.1 h)
  cases language with
  | java => cases hs
  | kotlin =>
    obtain rfl : TemplateSyntax.kotlin = s := Option.some.inj hs
    rcases h with h | h | h
    · exact hescape h
    · exact absurd h hbraces
    · -- a bare marker begins with the same sign
      exact absurd h hdollar
  | javaScript =>
    obtain rfl : TemplateSyntax.javaScript = s := Option.some.inj hs
    rcases h with h | h
    · exact hescape h
    · exact absurd h hbraces
  | python =>
    obtain rfl : TemplateSyntax.python = s := Option.some.inj hs
    obtain ⟨v, rfl, -⟩ := takes_char_append.1 h
    exact absurd (hw '{' (by simp)) (by decide)
  | swift =>
    obtain rfl : TemplateSyntax.swift = s := Option.some.inj hs
    rcases h with h | h
    · obtain ⟨v, rfl, hv⟩ := takes_char_append.1 h
      obtain ⟨rfl, rfl⟩ := takes_char.1 hv
      exact ⟨by simp, rfl⟩
    · obtain ⟨v, rfl, hv⟩ := takes_char_append.1 (takes_assoc.1 h)
      obtain ⟨z, rfl, -⟩ := takes_char_append.1 hv
      exact absurd (hw '(' (by simp)) (by decide)

/-- **A template without markers stays as it is.** -/
theorem fillTemplate_eq_self {t : Text} (ht : ∀ c ∈ t, isMarkerSign c = false) :
    fillTemplate language b t = t := by
  unfold fillTemplate
  cases hs : language.templates with
  | none => rfl
  | some s =>
    refine replaceAll_eq_self fun {seen w rest g} hr hw => ?_
    obtain ⟨hne, rfl⟩ := groups_of_takes_marker hs hw fun c hc => ht c (by rw [hr]; simp [hc])
    exact ⟨hne, resolve_of_no_groups⟩

/-! ### A marker -/

/-- What stands before and behind the expression in a marker. -/
def Language.braces : Language → Option (Text × Text)
  | .kotlin | .javaScript => some (['$', '{'], ['}'])
  | .python => some (['{'], ['}'])
  | .swift => some (['\\', '('], [')'])
  | .java => none

/-- Whether a character may stand between the brackets of a marker. -/
def Language.isEnclosed : Language → Char → Bool
  | .kotlin, c | .javaScript, c => c != '}'
  | .python, c => c != '{' && c != '}'
  | .swift, c => c != ')'
  | .java, _ => true

/-- A marker is read up to its first closing bracket, with what stands before that as group 1. -/
theorem matchAt?_of_bracketed {q : Pattern} {p : Char → Bool} {before : Text} {close : Char}
    (hp : p close = false) (hx : ∀ c ∈ x, p c)
    (h : ∃ more, outcomes q ⟨between [] (before ++ (x ++ close :: rest)), []⟩ =
      outcomes (TemplateSyntax.bracketed p close) ⟨between before.reverse (x ++ close :: rest), []⟩ ++
        more) :
    q.matchAt? (between [] (before ++ (x ++ close :: rest))) =
      some (matchOf [] (before ++ (x ++ [close])) rest
        [(1, Span.of before.reverse x (close :: rest))]) := by
  obtain ⟨more, h⟩ := h
  have hclose : ∀ c ∈ (close :: rest).head?, p c = false := by simpa using hp
  have hlast : ∀ (seen : Text) (g : List (Nat × Span)),
      outcomes (char close) ⟨between seen (close :: rest), g⟩ =
        [⟨between (close :: seen) rest, g⟩] := by
    intro seen g
    simp [char, outcomes, advance?, between]
  rw [TemplateSyntax.bracketed, outcomes_upTo hp hx hclose, hlast] at h
  rw [matchAt?_eq_head?, h]
  simp [matchOf, Span.of]

theorem matchAt?_marker {s : TemplateSyntax} {before after : Text}
    (hs : language.templates = some s) (hl : language.braces = some (before, after))
    (hx : ∀ c ∈ x, language.isEnclosed c) (rest : Text) :
    s.marker.matchAt? (between [] (before ++ (x ++ (after ++ rest)))) =
      some (matchOf [] (before ++ (x ++ after)) rest
        [(1, Span.of before.reverse x (after ++ rest))]) := by
  cases language with
  | java => cases hs
  | kotlin =>
    obtain rfl : TemplateSyntax.kotlin = s := Option.some.inj hs
    obtain ⟨rfl, rfl⟩ := Prod.mk.inj (Option.some.inj hl)
    -- what follows is the marker without braces, which does not begin with a brace
    exact matchAt?_of_bracketed (p := (· != '}')) (by decide) hx ⟨[] ++ [], List.append_assoc _ [] []⟩
  | javaScript =>
    obtain rfl : TemplateSyntax.javaScript = s := Option.some.inj hs
    obtain ⟨rfl, rfl⟩ := Prod.mk.inj (Option.some.inj hl)
    exact matchAt?_of_bracketed (p := (· != '}')) (by decide) hx ⟨[], rfl⟩
  | python =>
    obtain rfl : TemplateSyntax.python = s := Option.some.inj hs
    obtain ⟨rfl, rfl⟩ := Prod.mk.inj (Option.some.inj hl)
    exact matchAt?_of_bracketed (p := fun c => c != '{' && c != '}') (by decide) hx ⟨[], rfl⟩
  | swift =>
    obtain rfl : TemplateSyntax.swift = s := Option.some.inj hs
    obtain ⟨rfl, rfl⟩ := Prod.mk.inj (Option.some.inj hl)
    exact matchAt?_of_bracketed (p := (· != ')')) (by decide) hx ⟨[], rfl⟩

theorem isEnclosed_of_class {p : Char → Bool} (hp : ∀ d ∈ ['{', '}', ')'], p d = false)
    (hx : ∀ c ∈ x, p c) : ∀ c ∈ x, language.isEnclosed c := by
  have hne : ∀ d ∈ ['{', '}', ')'], ∀ c ∈ x, (c != d) = true := by
    intro d hd c hc
    rw [bne_iff_ne]
    rintro rfl
    have h := hx c hc
    rw [hp c hd] at h
    cases h
  intro c hc
  cases language with
  | kotlin => exact hne '}' (by simp) c hc
  | javaScript => exact hne '}' (by simp) c hc
  | python =>
    rw [Language.isEnclosed, Bool.and_eq_true]
    exact ⟨hne '{' (by simp) c hc, hne '}' (by simp) c hc⟩
  | swift => exact hne ')' (by simp) c hc
  | java => rfl

theorem isEnclosed_of_isName (hx : x.isName) : ∀ c ∈ x, language.isEnclosed c :=
  isEnclosed_of_class (p := fun c => Unicode.isAlphanumeric c || c == '_') (by decide)
    (Text.forall_mem_of_isName hx).2

/-- What a match with a group is replaced by: the value of what the group holds, if it has one. -/
theorem resolve_of_group {n : Nat} {before : Text} (hn : n = 1 ∨ n = 2) :
    TemplateSyntax.resolve b (matchOf seen w rest [(n, Span.of before x rest')]) =
      (TemplateSyntax.value? b x).getD w := by
  have htext : (matchOf seen w rest [(n, Span.of before x rest')]).text = w := Span.text_of seen w rest
  have hgroup : ((matchOf seen w rest [(n, Span.of before x rest')]).group? 1 <|>
      (matchOf seen w rest [(n, Span.of before x rest')]).group? 2) = some x := by
    rcases hn with rfl | rfl
    · exact congrArg some (Span.text_of before x rest')
    · exact congrArg some (Span.text_of before x rest')
  rw [TemplateSyntax.resolve, hgroup, htext, Option.bind_some]
  cases TemplateSyntax.value? b x <;> rfl

/-- **A template that is a marker around a name becomes the value of the name.** -/
theorem fillTemplate_marker {before after v : Text} (hl : language.braces = some (before, after))
    (hx : x.isName) (hv : b.get? x = some v) :
    fillTemplate language b (before ++ (x ++ after)) = v := by
  obtain ⟨s, hs⟩ : ∃ s, language.templates = some s := by
    cases language <;> first | exact ⟨_, rfl⟩ | cases hl
  have hne : before ++ (x ++ after) ≠ [] := by
    simp [(Text.forall_mem_of_isName hx).1]
  have hmatch := matchAt?_marker hs hl (isEnclosed_of_isName hx) []
  rw [List.append_nil] at hmatch
  unfold fillTemplate
  rw [hs]
  show s.marker.replaceAll (TemplateSyntax.resolve b) (before ++ (x ++ after)) = v
  rw [replaceAll_of_matchAt? hne hmatch, resolve_of_group (Or.inl rfl), TemplateSyntax.value?,
    Text.trim_of_isName hx, if_pos hx, hv]
  rfl

end DryRun
