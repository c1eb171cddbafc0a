import DryRun.Prediction
import DryRun.Proofs.Arguments.Frame

/-!
# Where bindings come from

Nothing is bound that was not written: a bound name is a stretch of the snippet without white space, and
a bound value is a stretch of it or a truth value in small letters (`isNameIn_and_isValueIn_of_get?`).
Names are read off the groups of declarations and off the parameters of headers, values off the groups
of declarations and off the arguments of calls; a call may also copy a value that is bound already, so
what is kept from one binding to the next is a property of all bindings (`Bindings.DrawnFrom`).
-/

namespace DryRun

open Unicode

variable {language : Language} {b : Bindings} {t s name value : Text} {m : Match} {p : Pattern}

/-- A name that stands in a text: it is not empty and has no white space. -/
structure IsNameIn (t name : Text) : Prop where
  ne_nil : name ≠ []
  isWhiteSpace_eq_false : ∀ c ∈ name, isWhiteSpace c = false
  stands : name <:+: t

/-- A value that stands in a text, or that is the text of a truth value. -/
def IsValueIn (t value : Text) : Prop :=
  value <:+: t ∨ value = "true".toList ∨ value = "false".toList

theorem IsNameIn.mono (h : IsNameIn s name) (hs : s <:+: t) : IsNameIn t name :=
  ⟨h.ne_nil, h.isWhiteSpace_eq_false, h.stands.trans hs⟩

theorem isNameIn_of_isName (h : name.isName) (hs : name <:+: t) : IsNameIn t name where
  ne_nil := by
    rintro rfl
    cases h
  isWhiteSpace_eq_false := Text.isWhiteSpace_of_isName h
  stands := hs

namespace Bindings

/-- Whether all that is bound stands in a text. -/
def DrawnFrom (t : Text) (b : Bindings) : Prop :=
  ∀ name value, b.get? name = some value → IsNameIn t name ∧ IsValueIn t value

theorem DrawnFrom.insert (hb : b.DrawnFrom t) (hname : IsNameIn t name) (hvalue : IsValueIn t value) :
    (b.insert name value).DrawnFrom t := by
  intro other v h
  rw [get?_insert] at h
  split at h
  · rename_i heq
    obtain rfl := heq
    obtain rfl := Option.some.inj h
    exact ⟨hname, hvalue⟩
  · exact hb other v h

end Bindings

/-! ### Declarations -/

namespace Declaration

open Pattern

theorem of_ofMatch?_eq_some (h : ofMatch? m = some (name, value)) :
    m.group? 1 = some name ∧ (m.group? 2 = some value ∨ m.group? 3 = some value) := by
  simp only [ofMatch?, Option.bind_eq_bind, Option.bind_eq_some_iff, Option.pure_def,
    Option.some.injEq, Prod.mk.injEq] at h
  obtain ⟨name', hname, value', hvalue, rfl, rfl⟩ := h
  refine ⟨hname, ?_⟩
  cases htwo : m.group? 2 with
  | none => exact Or.inr (by simpa [htwo] using hvalue)
  | some x => exact Or.inl (by simpa [htwo] using hvalue)

/-- A declared name is a word of the text, and its value stands in the text. -/
theorem of_mem_filterMap {x : Text × Text} (hword : p.numbered 1 = [word])
    (hx : x ∈ (p.findAll t).filterMap ofMatch?) :
    (x.1 ≠ [] ∧ ∀ c ∈ x.1, isWord c) ∧ x.1 <:+: t ∧ x.2 <:+: t := by
  obtain ⟨m, hm, hread⟩ := List.mem_filterMap.1 hx
  obtain ⟨hname, hvalue⟩ := of_ofMatch?_eq_some hread
  obtain ⟨q, hq, seen, rest, g, g', htakes⟩ := exists_numbered_of_mem_findAll hm hname
  rw [hword] at hq
  obtain rfl := List.mem_singleton.1 hq
  exact ⟨(takes_word.1 htakes).1, infix_of_group?_findAll hm hname,
    hvalue.elim (infix_of_group?_findAll hm) (infix_of_group?_findAll hm)⟩

theorem numbered_names (language : Language) :
    language.declarations.strings.numbered 1 = [word] ∧
      language.declarations.numbers.numbered 1 = [word] ∧
      language.declarations.truths.numbered 1 = [word] := by
  cases language <;> exact ⟨rfl, rfl, rfl⟩

theorem exists_truthWords (language : Language) : ∃ words : List String,
    language.declarations.truths.numbered 2 = [oneOf words] ∧
      language.declarations.truths.numbered 3 = [] ∧ words ≠ [] ∧
      ∀ w ∈ words, Text.toLower w.toList = "true".toList ∨ Text.toLower w.toList = "false".toList := by
  by_cases hl : language = .python
  · subst hl
    exact ⟨["True", "False"], rfl, rfl, by simp, by decide⟩
  · refine ⟨["true", "false"], ?_, ?_, by simp, by decide⟩ <;>
      cases language <;> first | rfl | exact absurd rfl hl

theorem of_mem_truths {x : Text × Text} (hx : x ∈ truths language t) :
    (x.1 ≠ [] ∧ ∀ c ∈ x.1, isWord c) ∧ x.1 <:+: t ∧
      (x.2 = "true".toList ∨ x.2 = "false".toList) := by
  obtain ⟨⟨name, value⟩, hfound, rfl⟩ := List.mem_map.1 hx
  obtain ⟨hword, hname, -⟩ := of_mem_filterMap (numbered_names language).2.2 hfound
  refine ⟨hword, hname, ?_⟩
  obtain ⟨m, hm, hread⟩ := List.mem_filterMap.1 hfound
  obtain ⟨words, htwo, hthree, hne, hwords⟩ := exists_truthWords language
  rcases (of_ofMatch?_eq_some hread).2 with hvalue | hvalue
  · obtain ⟨q, hq, seen, rest, g, g', htakes⟩ := exists_numbered_of_mem_findAll hm hvalue
    rw [htwo] at hq
    obtain rfl := List.mem_singleton.1 hq
    obtain ⟨w, hw, rfl⟩ := ((takes_oneOf hne).1 htakes).1
    exact hwords w hw
  -- there is no group for single quotes
  · obtain ⟨q, hq, -⟩ := exists_numbered_of_mem_findAll hm hvalue
    rw [hthree] at hq
    cases hq

end Declaration

/-- **A declared name is a word of the text**, and its value stands there or is a truth value. -/
theorem of_get?_declared (h : (declared language t).get? name = some value) :
    (name ≠ [] ∧ ∀ c ∈ name, isWord c) ∧ name <:+: t ∧ IsValueIn t value := by
  rcases mem_of_get?_declared h with hx | hx | hx
  · obtain ⟨hword, hname, hvalue⟩ :=
      Declaration.of_mem_filterMap (Declaration.numbered_names language).1 hx
    exact ⟨hword, hname, Or.inl hvalue⟩
  · obtain ⟨m, hm, hread⟩ := List.mem_filterMap.1 hx
    have hx : (name, value) ∈ (language.declarations.numbers.findAll t).filterMap
        Declaration.ofMatch? := List.mem_filterMap.2 ⟨m, (List.mem_filter.1 hm).1, hread⟩
    obtain ⟨hword, hname, hvalue⟩ :=
      Declaration.of_mem_filterMap (Declaration.numbered_names language).2.1 hx
    exact ⟨hword, hname, Or.inl hvalue⟩
  · obtain ⟨hword, hname, hvalue⟩ := Declaration.of_mem_truths hx
    exact ⟨hword, hname, Or.inr hvalue⟩

theorem declared_drawnFrom (language : Language) (t : Text) : (declared language t).DrawnFrom t := by
  intro name value h
  obtain ⟨⟨hne, hword⟩, hname, hvalue⟩ := of_get?_declared h
  exact ⟨⟨hne, fun c hc => isWhiteSpace_eq_false_of_isWord (hword c hc), hname⟩, hvalue⟩

/-! ### Parameters -/

theorem Parameter.stripStars_isInfix (t : Text) : stripStars t <:+: t := by
  have hends : ∀ s : Text, (s.reverse.dropWhile (· == '.')).reverse <+: s := by
    intro s
    rw [← List.reverse_suffix, List.reverse_reverse]
    exact List.dropWhile_suffix _
  exact (hends _).isInfix.trans (List.dropWhile_suffix _).isInfix

theorem Parameter.isNameIn_of_ofText? {q : Parameter} (h : ofText? language t = some q) :
    IsNameIn t q.name := by
  unfold ofText? at h
  split at h
  · cases h
  · rename_i last earlier hwords
    have hlast : last ∈ ((t.before '=').before ':').words := by
      rw [← List.mem_reverse, hwords]
      exact List.mem_cons_self
    have hstands : stripStars last <:+: t :=
      (((stripStars_isInfix last).trans (Text.of_mem_words hlast).2.2).trans
        (Text.before_isPrefix ':' _).isInfix).trans (Text.before_isPrefix '=' t).isInfix
    dsimp only at h
    by_cases hname : (stripStars last).isName
    · split at h
      · cases h
      · split at h <;> obtain rfl := Option.some.inj h <;> exact isNameIn_of_isName hname hstands
    · simp [hname] at h

theorem Signature.isNameIn_of_mem {f : Signature} {q : Parameter} (hf : f ∈ signatures language t)
    (hq : q ∈ f.parameters) : IsNameIn t q.name := by
  obtain ⟨header, -, m, hm, hread⟩ := mem_signatures_iff.1 hf
  simp only [ofMatch?, Option.bind_eq_bind, Option.bind_eq_some_iff] at hread
  obtain ⟨span, -, hread⟩ := hread
  split at hread
  · cases hread
  · obtain rfl := Option.some.inj hread
    obtain ⟨declaration, hdeclaration, hq⟩ := List.mem_filterMap.1 hq
    cases hgroup : m.group? 2 with
    | none =>
      -- without the group the parameters are read off an empty text
      rw [hgroup] at hdeclaration
      cases hdeclaration
    | some parameters =>
      rw [hgroup, Option.getD_some] at hdeclaration
      have hstands : declaration <:+: t := (Nesting.infix_of_mem_split hdeclaration).trans
        (Pattern.infix_of_group?_findAll hm hgroup)
      exact (Parameter.isNameIn_of_ofText? hq).mono hstands

/-! ### Calls -/

theorem IsValueIn.of_isGiven (hb : b.DrawnFrom t) (h : Call.IsGiven t b value) : IsValueIn t value := by
  rcases h with hstands | ⟨name, hbound⟩
  · exact Or.inl hstands
  · exact (hb name value hbound).2

theorem Bindings.DrawnFrom.afterCalls (hb : b.DrawnFrom t) : (b.afterCalls language t).DrawnFrom t :=
  Call.afterCalls_induction
    (fun hf hq hvalue hb => hb.insert (Signature.isNameIn_of_mem hf hq) (.of_isGiven hb hvalue)) hb

/-- **Prediction invents nothing.**  A bound name stands in the snippet without its comments, is not
empty and has no white space; a bound value stands there as well, or is `true` or `false`. -/
theorem isNameIn_and_isValueIn_of_get? (language : Language) (source name value : Text)
    (h : (bindingsOf language source).get? name = some value) :
    IsNameIn (withoutComments language source) name ∧
      IsValueIn (withoutComments language source) value :=
  (declared_drawnFrom language _).afterCalls name value h

/-- A call copies the truth value of a name, which the snippet writes in another way, to a parameter. -/
theorem isNameIn_and_isValueIn_of_get?_python :
    let source := "def f(a, *rest): print(a)\nok = True # yes\nf(1, ok)".toList
    (bindingsOf .python source).get? "rest".toList = some "true".toList ∧
      ¬ "true".toList <:+: withoutComments .python source ∧
      IsNameIn (withoutComments .python source) "rest".toList ∧
      IsValueIn (withoutComments .python source) "true".toList := by
  intro source
  have hbound : (bindingsOf .python source).get? "rest".toList = some "true".toList := by decide
  obtain ⟨hname, hvalue⟩ := isNameIn_and_isValueIn_of_get? .python source _ _ hbound
  exact ⟨hbound, by decide, hname, hvalue⟩

end DryRun
