import DryRun.Proofs.Pattern.Preferred
import DryRun.Proofs.Pattern.Restart
import DryRun.Proofs.StringLiteral
import DryRun.Proofs.Template

/-!
# Templates are filled in a single pass

A template is read from left to right.  Text in which no marker opens is copied (`IsUnmarked`), where a
backslash and the character that it takes along count as one: nothing is found in it but escapes
(`groups_of_mem_findFrom`).  A marker is replaced by its value or, without one, copied; what follows is
filled in as if the template began there.  So values are copied whole and never read again
(`fillTemplate_append_marker`).
-/

namespace DryRun

open Pattern Cursor Unicode
open StringLiteral (body_induction)

/-! ### Where markers open -/

/-- Whether a text begins with the opening of a marker. -/
def Language.opensMarker : Language → Text → Bool
  | .kotlin, '$' :: c :: _ => c == '{' || c.isAlpha || c == '_'
  | .javaScript, '$' :: '{' :: _ => true
  | .python, '{' :: _ => true
  | .swift, '\\' :: '(' :: _ => true
  | _, _ => false

/-- Whether no marker opens in a text outside the pairs of a backslash and the character that it takes
along, and the last backslash takes one along. -/
def Language.opensNoMarker (language : Language) : Text → Bool
  | [] => true
  | ['\\'] => false
  | '\\' :: c :: t => !language.opensMarker ('\\' :: c :: t) && opensNoMarker language t
  | c :: t => !language.opensMarker (c :: t) && opensNoMarker language t

/-- Whether a text has no marker in it and leads into none.  In Python a backslash takes nothing along,
and every brace opens a marker. -/
def Language.IsUnmarked (language : Language) (t : Text) : Prop :=
  if language = .python then '{' ∉ t else language.opensNoMarker t

instance (language : Language) (t : Text) : Decidable (language.IsUnmarked t) :=
  inferInstanceAs (Decidable (if language = .python then '{' ∉ t else language.opensNoMarker t))

/-- The characters that make an escape of the backslash before them. -/
def Language.isEscapable : Language → Char → Bool
  | .kotlin, c | .javaScript, c => c != '\n'
  | .swift, c => c == '\\'
  | .python, _ | .java, _ => false

variable {language : Language} {b : Bindings} {c : Char} {seen w t x rest : Text}
  {g : List (Nat × Span)} {s : TemplateSyntax}

theorem isUnmarked_iff (hl : language ≠ .python) :
    language.IsUnmarked t ↔ language.opensNoMarker t := by
  rw [Language.IsUnmarked, if_neg hl]

theorem opensNoMarker_pair_iff : language.opensNoMarker ('\\' :: c :: t) ↔
    language.opensMarker ('\\' :: c :: t) = false ∧ language.opensNoMarker t := by
  simp [Language.opensNoMarker]

theorem opensNoMarker_cons_iff (hc : c ≠ '\\') : language.opensNoMarker (c :: t) ↔
    language.opensMarker (c :: t) = false ∧ language.opensNoMarker t := by
  simp [Language.opensNoMarker, hc]

/-- Only the first two characters count. -/
theorem opensMarker_append (ht : t ≠ []) :
    language.opensMarker (c :: t ++ rest) = language.opensMarker (c :: t) := by
  obtain ⟨d, t, rfl⟩ := List.exists_cons_of_ne_nil ht
  unfold Language.opensMarker
  cases language <;> split <;> simp_all

theorem opensMarker_eq_false (hl : language ≠ .python) (hb : c ≠ '\\') (hd : c ≠ '$') :
    language.opensMarker (c :: t) = false := by
  unfold Language.opensMarker
  split <;> simp_all

/-! ### What the marker of a language takes -/

/-- What a search for markers finds: an escape, or a marker from its opening on. -/
theorem takes_marker (hs : language.templates = some s) (h : Takes s.marker seen w rest [] g) :
    w ≠ [] ∧ ((∃ c, w = ['\\', c] ∧ language.isEscapable c ∧ g = []) ∨
      language.opensMarker (w ++ rest)) := by
  have hescape : ∀ {g}, Takes TemplateSyntax.escape seen w rest [] g →
      ∃ c, w = ['\\', c] ∧ (c != '\n') = true ∧ g = [] := by
    intro g h
    obtain ⟨v, rfl, ⟨⟨c, hc, rfl⟩, rfl⟩⟩ := takes_char_append.1 h
    exact ⟨c, rfl, hc, rfl⟩
  have hbraces : Takes TemplateSyntax.dollarBraces seen w rest [] g → ∃ v, w = '$' :: '{' :: v := by
    intro h
    obtain ⟨v, rfl, hv⟩ := takes_char_append.1 (takes_assoc.1 h)
    obtain ⟨z, rfl, -⟩ := takes_char_append.1 hv
    exact ⟨z, rfl⟩
  cases language with
  | java => cases hs
  | kotlin =>
    obtain rfl : TemplateSyntax.kotlin = s := Option.some.inj hs
    rcases h with h | h | h
    · obtain ⟨c, rfl, hc, rfl⟩ := hescape h
      exact ⟨by simp, Or.inl ⟨c, rfl, hc, rfl⟩⟩
    · obtain ⟨v, rfl⟩ := hbraces h
      exact ⟨by simp, Or.inr rfl⟩
    · obtain ⟨_, rfl, _, ⟨_, _, _, rfl, ⟨⟨c, hc, rfl⟩, rfl⟩, -⟩, -⟩ := takes_char_append.1 h
      refine ⟨by simp, Or.inr ?_⟩
      rw [Bool.or_eq_true] at hc
      rcases hc with hc | hc <;> simp [Language.opensMarker, hc]
  | javaScript =>
    obtain rfl : TemplateSyntax.javaScript = s := Option.some.inj hs
    rcases h with h | h
    · obtain ⟨c, rfl, hc, rfl⟩ := hescape h
      exact ⟨by simp, Or.inl ⟨c, rfl, hc, rfl⟩⟩
    · obtain ⟨v, rfl⟩ := hbraces h
      exact ⟨by simp, Or.inr rfl⟩
  | python =>
    obtain rfl : TemplateSyntax.python = s := Option.some.inj hs
    obtain ⟨v, rfl, -⟩ := takes_char_append.1 h
    exact ⟨by simp, Or.inr rfl⟩
  | swift =>
    obtain rfl : TemplateSyntax.swift = s := Option.some.inj hs
    rcases h with h | h
    · obtain ⟨v, rfl, hv⟩ := takes_char_append.1 h
      obtain ⟨rfl, rfl⟩ := takes_char.1 hv
      exact ⟨by simp, Or.inl ⟨'\\', rfl, rfl, rfl⟩⟩
    · obtain ⟨v, rfl, hv⟩ := takes_char_append.1 (takes_assoc.1 h)
      obtain ⟨z, rfl, -⟩ := takes_char_append.1 hv
      exact ⟨by simp, Or.inr rfl⟩

/-- Filling in goes on behind a marker as if the template began there. -/
theorem restarts_marker (hs : language.templates = some s) (b : Bindings) :
    Restarts s.marker (TemplateSyntax.resolve b) where
  ignoresSeen := by
    cases language with
    | java => cases hs
    | kotlin => cases hs; rfl
    | javaScript => cases hs; rfl
    | python => cases hs; rfl
    | swift => cases hs; rfl
  ne_nil h := (takes_marker hs h).1
  replace_within {seen w rest g before} h := by
    have htext : ((matchOf seen w rest g).within before []).text = (matchOf seen w rest g).text := by
      show ((Span.of seen w rest).within before []).text = (Span.of seen w rest).text
      rw [Span.within_of, Span.text_of, Span.text_of]
    simp only [TemplateSyntax.resolve, group?_within h, htext]

theorem matchAt?_marker_eq_none (hs : language.templates = some s)
    (ho : language.opensMarker (c :: t) = false)
    (he : c = '\\' → ∀ d ∈ t.head?, language.isEscapable d = false) :
    s.marker.matchAt? (between seen (c :: t)) = none := by
  refine matchAt?_eq_none_iff.2 fun w rest g hr hw => ?_
  rcases (takes_marker hs hw).2 with ⟨d, rfl, hd, -⟩ | h
  · obtain ⟨rfl, rfl⟩ := List.cons_eq_cons.1 hr
    rw [he rfl d rfl] at hd
    cases hd
  · rw [← hr, ho] at h
    cases h

theorem matchAt?_escape (hs : language.templates = some s) (hc : language.isEscapable c) :
    s.marker.matchAt? (between seen (['\\', c] ++ t)) = some (matchOf seen ['\\', c] t []) := by
  have htakes : Takes s.marker seen ['\\', c] t [] [] := by
    have hescape : (c != '\n') = true → Takes TemplateSyntax.escape seen ['\\', c] t [] [] :=
      fun hc => takes_char_append.2 ⟨[c], rfl, ⟨c, hc, rfl⟩, rfl⟩
    cases language with
    | java => cases hs
    | kotlin => cases hs; exact Or.inl (hescape hc)
    | javaScript => cases hs; exact Or.inl (hescape hc)
    | python => cases hc
    | swift =>
      cases hs
      obtain rfl : c = '\\' := by simpa [Language.isEscapable] using hc
      exact Or.inl (takes_char_append.2 ⟨['\\'], rfl, takes_char.2 ⟨rfl, rfl⟩⟩)
  have hopen : language.opensMarker ('\\' :: c :: t) = false := by
    cases language with
    | swift =>
      obtain rfl : c = '\\' := by simpa [Language.isEscapable] using hc
      rfl
    | java => rfl
    | kotlin => rfl
    | javaScript => rfl
    | python => rfl
  obtain ⟨m, hm⟩ := exists_matchAt? htakes
  obtain ⟨w, rest, g, hw, rfl, h⟩ := takes_of_matchAt?_eq_some hm
  rcases (takes_marker hs h).2 with ⟨d, rfl, -, rfl⟩ | h
  · obtain ⟨-, h1⟩ := List.cons_eq_cons.1 hw
    obtain ⟨rfl, h2⟩ := List.cons_eq_cons.1 h1
    obtain rfl : t = rest := h2
    exact hm
  · rw [← hw, List.cons_append, List.cons_append, List.nil_append, hopen] at h
    cases h

/-- A character that a backslash takes along without making an escape opens no marker either. -/
theorem copied_of_not_isEscapable (hl : language ≠ .python) (hc : language.isEscapable c = false) :
    language.opensMarker (c :: t) = false ∧
      (c = '\\' → ∀ d ∈ t.head?, language.isEscapable d = false) := by
  cases language with
  | python => exact absurd rfl hl
  | java => exact ⟨rfl, fun _ _ _ => rfl⟩
  | kotlin =>
    obtain rfl : c = '\n' := by simpa [Language.isEscapable] using hc
    exact ⟨rfl, fun h => absurd h (by decide)⟩
  | javaScript =>
    obtain rfl : c = '\n' := by simpa [Language.isEscapable] using hc
    exact ⟨rfl, fun h => absurd h (by decide)⟩
  | swift =>
    have hne : c ≠ '\\' := by simpa [Language.isEscapable] using hc
    refine ⟨?_, fun h => absurd h hne⟩
    unfold Language.opensMarker
    split <;> simp_all

/-- **In a text in which no marker opens nothing is found but escapes.** -/
theorem groups_of_mem_findFrom (hs : language.templates = some s) (hl : language ≠ .python)
    (ht : language.opensNoMarker t) : ∀ m ∈ s.marker.findFrom seen t, m.groups = [] := by
  induction t using body_induction generalizing seen with
  | nil =>
    intro m hm
    rw [findFrom_nil] at hm
    cases hm
  | lone => cases ht
  | pair c t ih =>
    rw [opensNoMarker_pair_iff] at ht
    cases hc : language.isEscapable c with
    | true =>
      have hmatch : s.marker.matchAt? (between seen (['\\', c] ++ t)) =
          some (matchOf seen ['\\', c] t []) := matchAt?_escape hs hc
      have hfound : s.marker.findFrom seen ('\\' :: c :: t) =
          matchOf seen ['\\', c] t [] :: s.marker.findFrom (c :: '\\' :: seen) t :=
        findFrom_of_some (by simp) hmatch
      rw [hfound, List.forall_mem_cons]
      exact ⟨rfl, ih ht.2⟩
    | false =>
      -- the backslash is copied by itself, and then the character behind it
      obtain ⟨hopen, hlast⟩ := copied_of_not_isEscapable (t := t) hl hc
      rw [findFrom_cons_of_none (matchAt?_marker_eq_none hs ht.1 fun _ d hd => by
          obtain rfl : c = d := by simpa using hd
          exact hc),
        findFrom_cons_of_none (matchAt?_marker_eq_none hs hopen hlast)]
      exact ih ht.2
  | one c t hc ih =>
    rw [opensNoMarker_cons_iff hc] at ht
    rw [findFrom_cons_of_none (matchAt?_marker_eq_none hs ht.1 fun h => absurd h hc)]
    exact ih ht.2

/-! ### One step of the pass -/

theorem fillTemplate_eq (hs : language.templates = some s) (t : Text) :
    fillTemplate language b t = s.marker.replaceAll (TemplateSyntax.resolve b) t := by
  unfold fillTemplate
  rw [hs]
  rfl

theorem fillTemplate_nil : fillTemplate language b [] = [] := by
  unfold fillTemplate
  cases language.templates with
  | none => rfl
  | some s => rfl

theorem fillTemplate_cons (ho : language.opensMarker (c :: t) = false)
    (he : c = '\\' → ∀ d ∈ t.head?, language.isEscapable d = false) :
    fillTemplate language b (c :: t) = c :: fillTemplate language b t := by
  cases hs : language.templates with
  | none =>
    unfold fillTemplate
    rw [hs]
  | some s =>
    rw [fillTemplate_eq hs, fillTemplate_eq hs,
      replaceAll_cons (restarts_marker hs b) (matchAt?_marker_eq_none hs ho he)]

/-- A backslash and the character that it takes along are copied, whether or not they are an
escape. -/
theorem fillTemplate_pair (hl : language ≠ .python)
    (ho : language.opensMarker ('\\' :: c :: t) = false) :
    fillTemplate language b ('\\' :: c :: t) = '\\' :: c :: fillTemplate language b t := by
  cases hc : language.isEscapable c with
  | true =>
    obtain ⟨s, hs⟩ : ∃ s, language.templates = some s := by
      cases language <;> first | exact ⟨_, rfl⟩ | cases hc
    have h := replaceAll_append (restarts_marker hs b) (by simp) (matchAt?_escape (t := t) hs hc)
    rw [resolve_of_no_groups] at h
    rw [fillTemplate_eq hs, fillTemplate_eq hs]
    exact h
  | false =>
    rw [fillTemplate_cons ho fun _ d hd => by
      obtain rfl : c = d := by simpa using hd
      exact hc]
    obtain ⟨hopen, hlast⟩ := copied_of_not_isEscapable (t := t) hl hc
    rw [fillTemplate_cons hopen hlast]

/-- **A marker is replaced by its value**, and what follows is filled in by itself. -/
theorem fillTemplate_bracketed {before after e : Text}
    (hl : language.braces = some (before, after)) (he : ∀ c ∈ e, language.isEnclosed c) (q : Text) :
    fillTemplate language b (before ++ (e ++ (after ++ q))) =
      (TemplateSyntax.value? b e).getD (before ++ (e ++ after)) ++ fillTemplate language b q := by
  obtain ⟨s, hs⟩ : ∃ s, language.templates = some s := by
    cases language <;> first | exact ⟨_, rfl⟩ | cases hl
  have hne : before ++ (e ++ after) ≠ [] := by
    cases language <;> cases hl <;> simp
  have hmatch := matchAt?_marker hs hl he q
  have hsplit : before ++ (e ++ (after ++ q)) = (before ++ (e ++ after)) ++ q := by simp
  rw [hsplit] at hmatch ⊢
  rw [fillTemplate_eq hs, fillTemplate_eq hs, replaceAll_append (restarts_marker hs b) hne hmatch,
    resolve_of_group (Or.inl rfl)]

/-- So is a bare marker in Kotlin, which goes as far as word characters do. -/
theorem fillTemplate_bare (hx : x.isAsciiName) {q : Text} (hq : ∀ c ∈ q.head?, isWord c = false) :
    fillTemplate .kotlin b ('$' :: (x ++ q)) =
      (TemplateSyntax.value? b x).getD ('$' :: x) ++ fillTemplate .kotlin b q := by
  have hs : Language.kotlin.templates = some .kotlin := rfl
  obtain ⟨c, v, rfl⟩ := List.exists_cons_of_ne_nil (Text.ne_nil_of_isAsciiName hx)
  have hc : (c.isAlpha || c == '_') = true := (Bool.and_eq_true_iff.1 hx).1
  have hword : ∀ d ∈ v, isWord d := fun d hd => Text.isWord_of_isAsciiName hx d (by simp [hd])
  have hbrace : c ≠ '{' := by
    rintro rfl
    exact absurd hc (by decide)
  -- the name is the last of the three ways, after an escape and braces
  have hescape : Fails TemplateSyntax.escape [] ('$' :: c :: v ++ q) :=
    (fails_char (by simp)).append _
  have hbraces : Fails TemplateSyntax.dollarBraces [] ('$' :: c :: v ++ q) := by
    intro w rest g g' hr h
    obtain ⟨z, rfl, hz⟩ := takes_char_append.1 (takes_assoc.1 h)
    obtain ⟨y, rfl, -⟩ := takes_char_append.1 hz
    simp only [List.cons_append, List.cons_eq_cons] at hr
    exact hbrace hr.2.1
  have hname : Prefers (char '$' ++ group 2 asciiWord) [] (['$'] ++ ([c] ++ v)) q []
      [(2, Span.of ['$'] ([c] ++ v) q)] :=
    (prefers_char '$').append (((prefers_one hc).append (prefers_many hword hq)).group 2)
  have hmarker : Prefers TemplateSyntax.kotlin.marker [] (['$'] ++ ([c] ++ v)) q [] _ :=
    Prefers.alt_right hescape (Prefers.alt_right hbraces hname)
  have h := replaceAll_append (restarts_marker hs b) (by simp) hmarker.matchAt?
  rw [resolve_of_group (Or.inr rfl)] at h
  rw [fillTemplate_eq hs, fillTemplate_eq hs]
  exact h

/-! ### The pass -/

/-- Whether a text is unmarked whatever follows it: it does not end in a sign that opens a marker with
what comes next. -/
def Language.IsSealed (language : Language) (t : Text) : Prop :=
  language.IsUnmarked t ∧ (language = .python ∨ language.opensNoMarker (t ++ ['{']))

instance (language : Language) (t : Text) : Decidable (language.IsSealed t) :=
  inferInstanceAs (Decidable (language.IsUnmarked t ∧ _))

/-- A sign that makes no marker with a brace makes none with anything. -/
theorem opensMarker_of_brace (hl : language ≠ .python) (hc : c ≠ '\\')
    (h : language.opensMarker [c, '{'] = false) : language.opensMarker (c :: t) = false := by
  by_cases hd : c = '$'
  · subst hd
    cases language with
    | python => exact absurd rfl hl
    | java => rfl
    | kotlin => cases h
    | javaScript => cases h
    | swift => rfl
  · exact opensMarker_eq_false hl hc hd

/-- Unmarked text is copied, if its last sign makes no marker of what follows or of anything. -/
theorem fillTemplate_append_of_end (ht : language.IsUnmarked t)
    (hr : language = .python ∨ language.opensMarker ('$' :: rest) = false ∨
      language.opensNoMarker (t ++ ['{'])) :
    fillTemplate language b (t ++ rest) = t ++ fillTemplate language b rest := by
  unfold Language.IsUnmarked at ht
  by_cases hl : language = .python
  · rw [if_pos hl] at ht
    subst hl
    induction t with
    | nil => rfl
    | cons c t ih =>
      simp only [List.mem_cons, not_or] at ht
      have ho : Language.python.opensMarker (c :: (t ++ rest)) = false := by
        unfold Language.opensMarker
        split <;> simp_all
      rw [List.cons_append, fillTemplate_cons ho fun _ _ _ => rfl, ih ht.2 (Or.inl rfl),
        List.cons_append]
  · rw [if_neg hl] at ht
    replace hr := hr.resolve_left hl
    induction t using body_induction with
    | nil => rfl
    | lone => cases ht
    | pair c t ih =>
      rw [opensNoMarker_pair_iff] at ht
      have ho : language.opensMarker ('\\' :: c :: (t ++ rest)) = false := by
        rw [← ht.1]
        exact opensMarker_append (t := c :: t) (by simp)
      rw [List.cons_append, List.cons_append, fillTemplate_pair hl ho,
        ih ht.2 (hr.imp_right fun h => (opensNoMarker_pair_iff.1 h).2)]
      rfl
    | one c t hc ih =>
      rw [opensNoMarker_cons_iff hc] at ht
      -- only a `$` that ends the text could make a marker of what follows
      have htail : language.opensMarker ('$' :: rest) = false ∨ language.opensNoMarker (t ++ ['{']) :=
        hr.imp_right fun h => ((opensNoMarker_cons_iff hc).1 h).2
      have ho : language.opensMarker (c :: (t ++ rest)) = false := by
        by_cases hnil : t = []
        · subst hnil
          by_cases hd : c = '$'
          · rcases hr with hr | hr
            · rw [hd]
              exact hr
            · exact opensMarker_of_brace hl hc ((opensNoMarker_cons_iff hc).1 hr).1
          · exact opensMarker_eq_false hl hc hd
        · rw [← ht.1]
          exact opensMarker_append hnil
      rw [List.cons_append, fillTemplate_cons ho fun h => absurd h hc, ih ht.2 htail]
      rfl

/-- Text in which no marker opens is copied, if it does not end in front of a brace or a name that
would make a marker of its last sign. -/
theorem fillTemplate_append (ht : language.IsUnmarked t)
    (hr : language = .python ∨ language.opensMarker ('$' :: rest) = false) :
    fillTemplate language b (t ++ rest) = t ++ fillTemplate language b rest :=
  fillTemplate_append_of_end ht (hr.imp_right Or.inl)

/-- Sealed text is copied in front of everything. -/
theorem fillTemplate_append_of_isSealed (ht : language.IsSealed t) (rest : Text) :
    fillTemplate language b (t ++ rest) = t ++ fillTemplate language b rest :=
  fillTemplate_append_of_end ht.1 (ht.2.imp_right Or.inr)

/-- Unmarked text in front of a marker is copied, and the marker replaced. -/
theorem fillTemplate_append_bracketed {before after p e : Text}
    (hl : language.braces = some (before, after)) (hp : language.IsUnmarked p)
    (he : ∀ c ∈ e, language.isEnclosed c) (q : Text) :
    fillTemplate language b (p ++ (before ++ (e ++ (after ++ q)))) =
      p ++ ((TemplateSyntax.value? b e).getD (before ++ (e ++ after)) ++
        fillTemplate language b q) := by
  have hopen : ∀ t, language = .python ∨ language.opensMarker ('$' :: (before ++ t)) = false := by
    intro t
    cases language with
    | python => exact Or.inl rfl
    | java => cases hl
    | kotlin => cases hl; exact Or.inr rfl
    | javaScript => cases hl; exact Or.inr rfl
    | swift => cases hl; exact Or.inr rfl
  rw [fillTemplate_append hp (hopen _), fillTemplate_bracketed hl he]

theorem fillTemplate_of_isUnmarked (ht : language.IsUnmarked t) : fillTemplate language b t = t := by
  have hend : language = .python ∨ language.opensMarker ['$'] = false := by
    cases language <;> first | exact Or.inl rfl | exact Or.inr rfl
  have h := fillTemplate_append (b := b) ht hend
  rwa [fillTemplate_nil, List.append_nil] at h

/-- **Filling in is a single pass.**  In front of a marker, unmarked text is copied; the marker becomes
the value of the name or of the expression in it, or stays as written if that has none; and the text
behind it is filled in as if it stood alone.  In Kotlin the same holds of a bare marker, and in all
languages unmarked text is copied to the end. -/
theorem fillTemplate_append_marker (b : Bindings) {before after p e : Text}
    (hl : language.braces = some (before, after)) (hp : language.IsUnmarked p)
    (he : ∀ c ∈ e, language.isEnclosed c) (q : Text) :
    fillTemplate language b (p ++ (before ++ (e ++ (after ++ q)))) =
        p ++ ((if e.trim.isName then b.get? e.trim else Expression.eval? b e.trim).getD
          (before ++ (e ++ after)) ++ fillTemplate language b q) ∧
      fillTemplate language b p = p ∧
      (language = .kotlin → ∀ x : Text, x.isAsciiName → (∀ c ∈ q.head?, isWord c = false) →
        fillTemplate language b (p ++ '$' :: (x ++ q)) =
          p ++ ((b.get? x).getD ('$' :: x) ++ fillTemplate language b q)) := by
  refine ⟨fillTemplate_append_bracketed hl hp he q, fillTemplate_of_isUnmarked hp, ?_⟩
  rintro rfl x hx hq
  have hname := Text.isName_of_isAsciiName hx
  rw [fillTemplate_append hp (Or.inr rfl), fillTemplate_bare hx hq, TemplateSyntax.value?,
    Text.trim_of_isName hname, if_pos hname]

/-- A value that makes a marker of the text behind it, after an escaped dollar and a lone one. -/
theorem fillTemplate_append_marker_dollar :
    let b := ((∅ : Bindings).insert "price".toList "$".toList).insert "x".toList "1".toList
    let p := "\\$x $".toList
    let e := " price ".toList
    let q := "\x7bx\x7d".toList
    Language.kotlin.braces = some ("$\x7b".toList, "\x7d".toList) ∧ Language.kotlin.IsUnmarked p ∧
      (∀ c ∈ e, Language.kotlin.isEnclosed c) ∧
      fillTemplate .kotlin b (p ++ ("$\x7b".toList ++ (e ++ ("\x7d".toList ++ q)))) =
        p ++ ("$".toList ++ fillTemplate .kotlin b q) ∧
      fillTemplate .kotlin b p = p ∧
      fillTemplate .kotlin b (p ++ '$' :: ("price".toList ++ q)) =
        p ++ ("$".toList ++ fillTemplate .kotlin b q) := by
  intro b p e q
  have hp : Language.kotlin.IsUnmarked p := by decide
  have he : ∀ c ∈ e, Language.kotlin.isEnclosed c := by decide
  have hq : ∀ c ∈ q.head?, Unicode.isWord c = false := by
    rintro c ⟨⟩
    decide
  obtain ⟨h1, h2, h3⟩ := @fillTemplate_append_marker .kotlin b _ _ p e rfl hp he q
  exact ⟨rfl, hp, he, h1, h2, h3 rfl "price".toList (by decide) hq⟩

end DryRun
