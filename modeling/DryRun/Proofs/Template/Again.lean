import DryRun.Proofs.CallSites
import DryRun.Proofs.Expression.Characters
import DryRun.Proofs.Pattern.Groups
import DryRun.Proofs.Template.Pass

/-!
# Filling in a template again

A filled in template is a template itself.  If no value has a sign of markers in it, filling it in again
changes it exactly if a marker in it has a value (`fillTemplate_eq_self_iff`): a marker loses a sign when
it is replaced, and nothing makes up for that.  Such a marker may arise where a value meets the text
around it.  That cannot happen in a template whose markers stand in text that is closed at both ends
(`Language.IsSpaced`, `fillTemplate_fillTemplate`).
-/

namespace DryRun

open Pattern Cursor Unicode
open StringLiteral (body_induction)

/-- The characters that markers and escapes are written with. -/
def templateSigns : Text := ['$', '{', '}', '\\', '(', ')']

/-- Whether there is none of these characters in any value. -/
def Bindings.IsSignless (b : Bindings) : Prop :=
  ∀ x v, b.get? x = some v → ∀ c ∈ v, c ∉ templateSigns

theorem Bindings.isSignless_empty : (∅ : Bindings).IsSignless := by
  intro x v h
  rw [get?_empty] at h
  cases h

theorem Bindings.IsSignless.insert {b : Bindings} {v : Text} (hb : b.IsSignless)
    (hv : ∀ c ∈ v, c ∉ templateSigns) (x : Text) : (b.insert x v).IsSignless := by
  intro y w h
  rw [get?_insert] at h
  split at h
  · exact Option.some.inj h ▸ hv
  · exact hb y w h

/-- The expression in a match of a marker; an escape has none. -/
def Match.expression? (m : Match) : Option Text := m.group? 1 <|> m.group? 2

/-- The expressions in the markers of a template. -/
def Language.expressionsIn (language : Language) (t : Text) : List Text :=
  match language.templates with
  | some s => (s.marker.findAll t).filterMap Match.expression?
  | none => []

variable {language : Language} {b : Bindings} {c : Char} {seen w rest t u v e p : Text}
  {g : List (Nat × Span)} {s : TemplateSyntax} {m : Match}

/-! ### Replacing text by as much of a sign as it had -/

/-- If no piece has more of a character in one way than in the other, and the whole has as much, then
every piece has as much. -/
theorem count_eq_of_flatMap {α : Type} {l : List α} {f g : α → Text}
    (hle : ∀ x ∈ l, (f x).count c ≤ (g x).count c)
    (h : (l.flatMap f).count c = (l.flatMap g).count c) :
    ∀ x ∈ l, (f x).count c = (g x).count c := by
  have hsum : ∀ {l : List α}, (∀ x ∈ l, (f x).count c ≤ (g x).count c) →
      (l.flatMap f).count c ≤ (l.flatMap g).count c := by
    intro l hle
    induction l with
    | nil => exact le_rfl
    | cons x l ih =>
      rw [List.forall_mem_cons] at hle
      have hrest := ih hle.2
      have hx := hle.1
      simp only [List.flatMap_cons, List.count_append]
      omega
  induction l with
  | nil => exact fun x hx => absurd hx List.not_mem_nil
  | cons x l ih =>
    rw [List.forall_mem_cons] at hle
    -- the rest cannot make up for a difference in the first piece
    have hrest := hsum hle.2
    have hx := hle.1
    simp only [List.flatMap_cons, List.count_append] at h
    rw [List.forall_mem_cons]
    exact ⟨by omega, ih hle.2 (by omega)⟩

theorem replaceAll_text (hs : language.templates = some s) (t : Text) :
    s.marker.replaceAll Match.text t = t :=
  replaceAll_eq_self fun {seen w rest _} _ h => ⟨(takes_marker hs h).1, Span.text_of seen w rest⟩

theorem count_eq_of_replaceAll {f : Match → Text} (hs : language.templates = some s)
    (h : s.marker.replaceAll f t = t)
    (hle : ∀ m ∈ s.marker.findAll t, (f m).count c ≤ m.text.count c) :
    ∀ m ∈ s.marker.findAll t, (f m).count c = m.text.count c := by
  have hpieces : ∀ x ∈ s.marker.pieces t, (x.replace f).count c ≤ (x.replace Match.text).count c := by
    intro x hx
    cases x with
    | plain d => exact le_rfl
    | found m => exact hle m (List.mem_filterMap.2 ⟨.found m, hx, rfl⟩)
  have hcount := count_eq_of_flatMap hpieces
    (congrArg (List.count c) (h.trans (replaceAll_text hs t).symm))
  intro m hm
  obtain ⟨x, hx, hxm⟩ := List.mem_filterMap.1 hm
  cases x with
  | plain d => cases hxm
  | found m' =>
    obtain rfl := Option.some.inj hxm
    exact hcount _ hx

/-! ### What is found, and what it is replaced by -/

theorem isResultSign_of_mem_templateSigns (hc : c ∈ templateSigns) : isResultSign c = false := by
  revert c
  decide

/-- What a search for markers finds: an escape, a bracketed marker, or a bare one. -/
inductive Language.Finds (language : Language) : Text → Option Text → Prop
  | escape (w : Text) : Finds language w none
  | bracketed {before e : Text} {close : Char} (hl : language.braces = some (before, [close]))
      (he : close ∉ e) : Finds language (before ++ (e ++ [close])) (some e)
  | bare {x : Text} (hx : ∀ c ∈ x, isWord c) : Finds language ('$' :: x) (some x)

theorem expression?_of_group {n : Nat} {before rest' : Text} (hn : n = 1 ∨ n = 2) :
    (matchOf seen w rest [(n, Span.of before e rest')]).expression? = some e := by
  rcases hn with rfl | rfl <;> exact congrArg some (Span.text_of before e rest')

/-- Between brackets there is an expression without the closing one. -/
theorem exists_of_takes_bracketed {p : Char → Bool} {close : Char} (hp : p close = false)
    (h : Takes (TemplateSyntax.bracketed p close) seen w rest [] g) :
    ∃ e before rest', close ∉ e ∧ w = e ++ [close] ∧ g = [(1, Span.of before e rest')] := by
  obtain ⟨e, v, _, rfl, ⟨he, rfl⟩, hv⟩ := takes_group_append.1 h
  obtain ⟨rfl, rfl⟩ := takes_char.1 hv
  refine ⟨e, seen, _, fun hmem => ?_, rfl, rfl⟩
  rw [he close hmem] at hp
  cases hp

theorem finds_of_takes (hs : language.templates = some s) (h : Takes s.marker seen w rest [] g) :
    language.Finds w (matchOf seen w rest g).expression? := by
  have hescape : Takes TemplateSyntax.escape seen w rest [] g →
      language.Finds w (matchOf seen w rest g).expression? := by
    intro h
    obtain ⟨v, rfl, -, rfl⟩ := takes_char_append.1 h
    exact .escape _
  have hbraces : language.braces = some (['$', '{'], ['}']) →
      Takes TemplateSyntax.dollarBraces seen w rest [] g →
        language.Finds w (matchOf seen w rest g).expression? := by
    intro hl h
    obtain ⟨v, rfl, hv⟩ := takes_char_append.1 (takes_assoc.1 h)
    obtain ⟨z, rfl, hz⟩ := takes_char_append.1 hv
    obtain ⟨e, _, _, he, rfl, rfl⟩ := exists_of_takes_bracketed (by decide) hz
    rw [expression?_of_group (Or.inl rfl)]
    exact .bracketed hl he
  cases language with
  | java => cases hs
  | kotlin =>
    obtain rfl : TemplateSyntax.kotlin = s := Option.some.inj hs
    rcases h with h | h | h
    · exact hescape h
    · exact hbraces rfl h
    · obtain ⟨x, rfl, _, hx, rfl⟩ := takes_char_append.1 h
      obtain ⟨hword, rfl⟩ := Call.takes_asciiWord.1 hx
      rw [expression?_of_group (Or.inr rfl)]
      exact .bare hword.isWord
  | javaScript =>
    obtain rfl : TemplateSyntax.javaScript = s := Option.some.inj hs
    rcases h with h | h
    · exact hescape h
    · exact hbraces rfl h
  | python =>
    obtain rfl : TemplateSyntax.python = s := Option.some.inj hs
    obtain ⟨v, rfl, hv⟩ := takes_char_append.1 h
    obtain ⟨e, _, _, he, rfl, rfl⟩ := exists_of_takes_bracketed (by decide) hv
    rw [expression?_of_group (Or.inl rfl)]
    exact @Language.Finds.bracketed .python ['{'] e '}' rfl he
  | swift =>
    obtain rfl : TemplateSyntax.swift = s := Option.some.inj hs
    rcases h with h | h
    · obtain ⟨v, rfl, hv⟩ := takes_char_append.1 h
      obtain ⟨rfl, rfl⟩ := takes_char.1 hv
      exact .escape _
    · obtain ⟨v, rfl, hv⟩ := takes_char_append.1 (takes_assoc.1 h)
      obtain ⟨z, rfl, hz⟩ := takes_char_append.1 hv
      obtain ⟨e, _, _, he, rfl, rfl⟩ := exists_of_takes_bracketed (by decide) hz
      rw [expression?_of_group (Or.inl rfl)]
      exact @Language.Finds.bracketed .swift ['\\', '('] e ')' rfl he

theorem resolve_eq (m : Match) :
    TemplateSyntax.resolve b m = (m.expression?.bind (TemplateSyntax.value? b)).getD m.text := by
  unfold TemplateSyntax.resolve Match.expression?
  cases (m.group? 1 <|> m.group? 2).bind (TemplateSyntax.value? b) <;> rfl

/-- A sign of markers that is not in an expression is not in its value. -/
theorem notMem_value?_of_isSignless (hb : b.IsSignless) (hc : c ∈ templateSigns) (he : c ∉ e)
    (hv : TemplateSyntax.value? b e = some v) : c ∉ v :=
  TemplateSyntax.notMem_of_value? (fun x w hw hmem => hb x w hw c hmem hc) hv
    (isResultSign_of_mem_templateSigns hc) he

/-- Of such a sign there is no more in what a match is replaced by than in the match, and less if the
match has the sign and the expression a value. -/
theorem count_resolve_le (hb : b.IsSignless) (hc : c ∈ templateSigns)
    (hm : ∀ e ∈ m.expression?, ∀ v ∈ TemplateSyntax.value? b e, c ∉ e) :
    (TemplateSyntax.resolve b m).count c ≤ m.text.count c ∧
      ((TemplateSyntax.resolve b m).count c = m.text.count c → c ∈ m.text →
        ∀ e ∈ m.expression?, TemplateSyntax.value? b e = none) := by
  rw [resolve_eq]
  cases he : m.expression? with
  | none => simp
  | some e =>
    cases hv : TemplateSyntax.value? b e with
    | none => simp [hv]
    | some v =>
      have hnone : v.count c = 0 :=
        List.count_eq_zero.2 (notMem_value?_of_isSignless hb hc (hm e he v hv) hv)
      simp only [Option.bind_some, hv, Option.getD_some, hnone]
      refine ⟨Nat.zero_le _, fun hcount hmem => ?_⟩
      exact absurd hmem (List.count_eq_zero.1 hcount.symm)

/-- If replacing changes nothing, then no match with such a sign, which no expression has, is replaced. -/
theorem value?_eq_none_of_replaceAll (hs : language.templates = some s) (hb : b.IsSignless)
    (h : s.marker.replaceAll (TemplateSyntax.resolve b) u = u) (hc : c ∈ templateSigns)
    (hsign : ∀ m ∈ s.marker.findAll u, ∀ e ∈ m.expression?, ∀ v ∈ TemplateSyntax.value? b e, c ∉ e) :
    ∀ m ∈ s.marker.findAll u, c ∈ m.text → ∀ e ∈ m.expression?, TemplateSyntax.value? b e = none := by
  have hcount := count_eq_of_replaceAll hs h fun m hm => (count_resolve_le hb hc (hsign m hm)).1
  exact fun m hm => (count_resolve_le hb hc (hsign m hm)).2 (hcount m hm)

/-- The brackets of a language close with a sign of markers, which is none of a word. -/
theorem exists_closing (hs : language.templates = some s) :
    ∃ before close, language.braces = some (before, [close]) ∧ close ∈ templateSigns ∧
      isWord close = false := by
  cases language with
  | java => cases hs
  | kotlin => exact ⟨['$', '{'], '}', rfl, by decide, by decide⟩
  | javaScript => exact ⟨['$', '{'], '}', rfl, by decide, by decide⟩
  | python => exact ⟨['{'], '}', rfl, by decide, by decide⟩
  | swift => exact ⟨['\\', '('], ')', rfl, by decide, by decide⟩

/-- A marker has a closing bracket, or else a dollar, that its expression has not. -/
theorem Language.Finds.sign {before : Text} {close : Char} (h : language.Finds w (some e))
    (hl : language.braces = some (before, [close])) (hword : isWord close = false) :
    close ∉ e ∧ (close ∈ w ∨ '$' ∈ w ∧ '$' ∉ e) := by
  have hnotMem : ∀ {d : Char} {x : Text}, isWord d = false → (∀ c ∈ x, isWord c) → d ∉ x := by
    intro d x hd hx hmem
    rw [hx d hmem] at hd
    cases hd
  cases h with
  | bracketed hl' he =>
    rw [hl] at hl'
    obtain ⟨rfl, hclose⟩ := Prod.mk.inj (Option.some.inj hl')
    obtain ⟨rfl, -⟩ := List.cons_eq_cons.1 hclose
    exact ⟨he, Or.inl (by simp)⟩
  | bare hx => exact ⟨hnotMem hword hx, Or.inr ⟨by simp, hnotMem (by decide) hx⟩⟩

/-- **Filling in changes a template exactly if a marker in it has a value.** -/
theorem fillTemplate_eq_self_iff (hb : b.IsSignless) :
    fillTemplate language b u = u ↔
      ∀ e ∈ language.expressionsIn u, TemplateSyntax.value? b e = none := by
  cases hs : language.templates with
  | none => simp [fillTemplate, Language.expressionsIn, hs]
  | some s =>
    have hexpressions : (∀ e ∈ language.expressionsIn u, TemplateSyntax.value? b e = none) ↔
        ∀ m ∈ s.marker.findAll u, ∀ e ∈ m.expression?, TemplateSyntax.value? b e = none := by
      simp only [Language.expressionsIn, hs, List.mem_filterMap]
      exact ⟨fun h m hm e he => h e ⟨m, hm, he⟩, fun h e ⟨m, hm, he⟩ => h m hm e he⟩
    rw [fillTemplate_eq hs, hexpressions]
    constructor
    · intro h
      obtain ⟨before, close, hl, hclose, hword⟩ := exists_closing hs
      have hsign : ∀ m ∈ s.marker.findAll u, ∀ e ∈ m.expression?,
          close ∉ e ∧ (close ∈ m.text ∨ '$' ∈ m.text ∧ '$' ∉ e) := by
        intro m hm e he
        obtain ⟨u', w, rest, g, -, rfl, hw⟩ := takes_of_mem_findAll hm
        have hfinds := finds_of_takes hs hw
        rw [he] at hfinds
        have htext : (matchOf u'.reverse w rest g).text = w := Span.text_of u'.reverse w rest
        rw [htext]
        exact hfinds.sign hl hword
      -- no bracketed marker is replaced, or else there would be less closing brackets
      have hclosing := value?_eq_none_of_replaceAll hs hb h hclose
        fun m hm e he _ _ => (hsign m hm e he).1
      -- so no bare one is, or else there would be less dollars
      have hdollar := value?_eq_none_of_replaceAll hs hb h (by decide : '$' ∈ templateSigns) (by
        intro m hm e he v hv
        rcases (hsign m hm e he).2 with hmem | hmem
        · rw [hclosing m hm hmem e he] at hv
          cases hv
        · exact hmem.2)
      intro m hm e he
      rcases (hsign m hm e he).2 with hmem | hmem
      · exact hclosing m hm hmem e he
      · exact hdollar m hm hmem.1 e he
    · intro h
      refine (Pattern.replaceAll_congr fun m hm => ?_).trans (replaceAll_text hs u)
      rw [resolve_eq]
      cases he : m.expression? with
      | none => rfl
      | some e => rw [Option.bind_some, h m hm e he, Option.getD_none]

/-! ### Templates with closed text between their markers -/

/-- Whether a template consists of text that is closed at its end and of markers with simple
expressions.  Behind a bare marker neither a word character nor another marker may follow. -/
inductive Language.IsSpaced (language : Language) : Text → Prop
  | plain {p : Text} (hp : language.IsUnmarked p) : IsSpaced language p
  | bracketed {p before e after q : Text} (hl : language.braces = some (before, after))
      (hp : language.IsSealed p) (he : ∀ c ∈ e, c ∉ templateSigns) (hq : IsSpaced language q) :
      IsSpaced language (p ++ (before ++ (e ++ (after ++ q))))
  | bare {p x q : Text} (hl : language = .kotlin) (hp : language.IsSealed p) (hx : x.isAsciiName)
      (hnext : ∀ c ∈ q.head?, isWord c = false ∧ c ≠ '$') (hq : IsSpaced language q) :
      IsSpaced language (p ++ '$' :: (x ++ q))

theorem opensNoMarker_of_notMem (hl : language ≠ .python) (hb : '\\' ∉ v) (hd : '$' ∉ v) :
    language.opensNoMarker v := by
  induction v with
  | nil => rfl
  | cons c v ih =>
    simp only [List.mem_cons, not_or] at hb hd
    rw [opensNoMarker_cons_iff (Ne.symm hb.1)]
    exact ⟨opensMarker_eq_false hl (Ne.symm hb.1) (Ne.symm hd.1), ih hb.2 hd.2⟩

theorem opensNoMarker_append (hl : language ≠ .python) (ht : language.opensNoMarker t)
    (hseal : language.opensNoMarker (t ++ ['{'])) (hv : language.opensNoMarker v) :
    language.opensNoMarker (t ++ v) := by
  induction t using body_induction with
  | nil => exact hv
  | lone => cases ht
  | pair c t ih =>
    rw [opensNoMarker_pair_iff] at ht
    refine opensNoMarker_pair_iff.2 ⟨?_, ih ht.2 (opensNoMarker_pair_iff.1 hseal).2⟩
    rw [← ht.1]
    exact opensMarker_append (t := c :: t) (by simp)
  | one c t hc ih =>
    rw [opensNoMarker_cons_iff hc] at ht
    obtain ⟨hbrace, hseal⟩ := (opensNoMarker_cons_iff hc).1 hseal
    refine (opensNoMarker_cons_iff hc).2 ⟨?_, ih ht.2 hseal⟩
    by_cases hnil : t = []
    · subst hnil
      exact opensMarker_of_brace hl hc hbrace
    · rw [← ht.1]
      exact opensMarker_append hnil

theorem Language.IsSealed.append (hp : language.IsSealed p) (hv : ∀ c ∈ v, c ∉ templateSigns) :
    language.IsSealed (p ++ v) := by
  have hnotMem : ∀ d ∈ templateSigns, d ∉ v := fun d hd hmem => hv d hmem hd
  by_cases hl : language = .python
  · subst hl
    have hbrace : '{' ∉ p := hp.1
    refine ⟨?_, Or.inl rfl⟩
    show '{' ∉ p ++ v
    rw [List.mem_append, not_or]
    exact ⟨hbrace, hnotMem '{' (by decide)⟩
  · have hseal := hp.2.resolve_left hl
    have hopen := (isUnmarked_iff hl).1 hp.1
    have hback := hnotMem '\\' (by decide)
    have hdollar := hnotMem '$' (by decide)
    refine ⟨(isUnmarked_iff hl).2 ?_, Or.inr ?_⟩
    · exact opensNoMarker_append hl hopen hseal (opensNoMarker_of_notMem hl hback hdollar)
    · rw [List.append_assoc]
      refine opensNoMarker_append hl hopen hseal (opensNoMarker_of_notMem hl ?_ ?_)
      · simpa using hback
      · simpa using hdollar

theorem notMem_templateSigns_of_value? (hb : b.IsSignless) (he : ∀ c ∈ e, c ∉ templateSigns)
    (hv : TemplateSyntax.value? b e = some v) : ∀ c ∈ v, c ∉ templateSigns := fun c hmem hc =>
  notMem_value?_of_isSignless hb hc (fun hce => he c hce hc) hv hmem

/-- In Kotlin, what is filled in begins like the template, unless that begins with a marker. -/
theorem head?_fillTemplate_kotlin (h : ∀ c ∈ t.head?, c ≠ '$') :
    (fillTemplate .kotlin b t).head? = t.head? := by
  cases t with
  | nil => rw [fillTemplate_nil]
  | cons c t =>
    have hd : c ≠ '$' := h c rfl
    have hopen : ∀ {t : Text}, Language.kotlin.opensMarker (c :: t) = false := by
      intro t
      unfold Language.opensMarker
      split <;> simp_all
    by_cases hc : c = '\\'
    · subst hc
      cases t with
      | nil => rw [fillTemplate_cons hopen (by simp)]; rfl
      | cons d t => rw [fillTemplate_pair (by decide) hopen]; rfl
    · rw [fillTemplate_cons hopen fun h => absurd h hc]
      rfl

/-- **Filling in a spaced template again changes nothing.** -/
theorem fillTemplate_fillTemplate (hb : b.IsSignless) (ht : language.IsSpaced t) :
    fillTemplate language b (fillTemplate language b t) = fillTemplate language b t := by
  induction ht with
  | plain hp => rw [fillTemplate_of_isUnmarked hp, fillTemplate_of_isUnmarked hp]
  | @bracketed p before e after q hl hp he hq ih =>
    have henclosed : ∀ c ∈ e, language.isEnclosed c :=
      isEnclosed_of_class (p := fun c => !templateSigns.contains c) (by decide) (by simpa using he)
    rw [fillTemplate_append_bracketed hl hp.1 henclosed]
    cases hv : TemplateSyntax.value? b e with
    | none =>
      have h := fillTemplate_append_bracketed (b := b) hl hp.1 henclosed (fillTemplate language b q)
      rw [hv, ih] at h
      simpa using h
    | some v =>
      have h := fillTemplate_append_of_isSealed (b := b)
        (hp.append (notMem_templateSigns_of_value? hb he hv)) (fillTemplate language b q)
      rw [ih] at h
      simpa using h
  | @bare p x q hl hp hx hnext hq ih =>
    subst hl
    have hword : ∀ c ∈ q.head?, isWord c = false := fun c hc => (hnext c hc).1
    -- what is filled in behind the marker does not make its name longer
    have hfilled : ∀ c ∈ (fillTemplate .kotlin b q).head?, isWord c = false := by
      rw [head?_fillTemplate_kotlin fun c hc => (hnext c hc).2]
      exact hword
    have hsigns : ∀ c ∈ x, c ∉ templateSigns := by
      intro c hc hsign
      have hclass : ∀ d ∈ templateSigns, isWord d = false := by decide
      have h := Text.isWord_of_isAsciiName hx c hc
      rw [hclass c hsign] at h
      cases h
    rw [fillTemplate_append_of_isSealed hp, fillTemplate_bare hx hword]
    cases hv : TemplateSyntax.value? b x with
    | none =>
      have h := fillTemplate_append_of_isSealed (b := b) hp ('$' :: (x ++ fillTemplate .kotlin b q))
      rw [fillTemplate_bare hx hfilled, hv, ih] at h
      simpa using h
    | some v =>
      have h := fillTemplate_append_of_isSealed (b := b)
        (hp.append (notMem_templateSigns_of_value? hb hsigns hv)) (fillTemplate .kotlin b q)
      rw [ih] at h
      simpa using h

/-- **Filling in again is harmless exactly if no marker in the filled in template has a value**, where the
values have no sign of markers in them.  That is so for every spaced template. -/
theorem fillTemplate_twice_iff (hb : b.IsSignless) (t : Text) :
    (fillTemplate language b (fillTemplate language b t) = fillTemplate language b t ↔
        ∀ e ∈ language.expressionsIn (fillTemplate language b t), TemplateSyntax.value? b e = none) ∧
      (language.IsSpaced t →
        fillTemplate language b (fillTemplate language b t) = fillTemplate language b t) :=
  ⟨fillTemplate_eq_self_iff hb, fillTemplate_fillTemplate hb⟩

/-- An escaped dollar in front of a value, and a marker without a value. -/
theorem fillTemplate_twice_price :
    let b := ((∅ : Bindings).insert "price".toList "5".toList).insert "x".toList "name".toList
    let t := "\\$$\x7b price \x7d for $x, $\x7bname\x7d!".toList
    b.IsSignless ∧ Language.kotlin.IsSpaced t ∧
      fillTemplate .kotlin b t = "\\$5 for name, $\x7bname\x7d!".toList ∧
      fillTemplate .kotlin b (fillTemplate .kotlin b t) =
        "\\$5 for name, $\x7bname\x7d!".toList := by
  intro b t
  have hb : b.IsSignless :=
    (Bindings.isSignless_empty.insert (by decide) "price".toList).insert (by decide) "x".toList
  have hlast : Language.kotlin.IsSpaced ", $\x7bname\x7d!".toList :=
    @Language.IsSpaced.bracketed .kotlin ", ".toList _ "name".toList _ ['!'] rfl (by decide) (by decide)
      (.plain (by decide))
  have hnext : Language.kotlin.IsSpaced " for $x, $\x7bname\x7d!".toList :=
    @Language.IsSpaced.bare .kotlin " for ".toList ['x'] _ rfl (by decide) (by decide)
      (by rintro c ⟨⟩; decide) hlast
  have ht : Language.kotlin.IsSpaced t :=
    @Language.IsSpaced.bracketed .kotlin "\\$".toList _ " price ".toList _ _ rfl (by decide)
      (by decide) hnext
  have hfill : fillTemplate .kotlin b t = "\\$5 for name, $\x7bname\x7d!".toList := by decide +kernel
  exact ⟨hb, ht, hfill, ((fillTemplate_twice_iff hb t).2 ht).trans hfill⟩

/-- A lone dollar makes a marker of the value behind it. -/
theorem not_fillTemplate_twice :
    ¬ ∀ (language : Language) (b : Bindings) (t : Text), b.IsSignless →
      fillTemplate language b (fillTemplate language b t) = fillTemplate language b t := by
  intro h
  let b := ((∅ : Bindings).insert "x".toList "name".toList).insert "name".toList "v".toList
  have hb : b.IsSignless :=
    (Bindings.isSignless_empty.insert (by decide) "x".toList).insert (by decide) "name".toList
  have h1 : fillTemplate .kotlin b "$$\x7bx\x7d".toList = "$name".toList := by decide +kernel
  have h2 : fillTemplate .kotlin b "$name".toList = "v".toList := by decide +kernel
  have hagain := h .kotlin b "$$\x7bx\x7d".toList hb
  rw [h1, h2] at hagain
  exact absurd hagain (by decide)

end DryRun
