import DryRun.Proofs.Nesting.Closing
import DryRun.Proofs.Pieces

/-!
# What is a literal

A text is read as a literal exactly if, trimmed, it consists of at most two letters, a quote, a body and
the same quote again (`ofText?_eq_some_iff`).  So there is only one way to take it apart.  Outside the
body stand letters and quotes only, and nothing stands behind the closing quote: no joining, no call and
no list of literals is a literal (`ofText?_eq_some_iff_and_eq_none`).
-/

namespace DryRun.StringLiteral

open Comment (isQuote)

variable {l : StringLiteral} {quote sign : Char} {t marks body rest left right : Text}

/-- Whether a text, but for the white space around it, is a literal written out. -/
structure IsOf (l : StringLiteral) (t : Text) : Prop where
  trim_eq : t.trim = l.marks ++ l.quote :: (l.body ++ [l.quote])
  length_marks : l.marks.length ≤ 2
  isAlpha_marks : ∀ c ∈ l.marks, c.isAlpha
  isQuote_quote : isQuote l.quote
  isBody : IsBody l.quote l.body

/-- **A text is read as a literal exactly if it is that literal written out.** -/
theorem ofText?_eq_some_iff : ofText? t = some l ↔ l.IsOf t := by
  constructor
  · intro h
    obtain ⟨hlength, halpha, hquote, hbody⟩ := parts_of_ofText? h
    exact ⟨trim_eq_of_ofText? h, hlength, halpha, hquote, hbody⟩
  · rintro ⟨htrim, hlength, halpha, hquote, hbody⟩
    have htrimmed : ofText? t.trim = ofText? t := by simp only [ofText?, Text.trim_trim]
    rw [← htrimmed, htrim]
    exact ofText?_of_isBody hlength halpha hquote hbody

theorem IsOf.notMem_marks (h : l.IsOf t) : ∀ c ∈ l.marks, isQuote c = false := fun c hc =>
  Comment.isQuote_eq_false (by decide) (h.isAlpha_marks c hc)

/-- Behind the first quote and the body that it opens, a literal has nothing but the quote again. -/
theorem IsOf.rest_eq_nil (h : l.IsOf t) (hmarks : ∀ c ∈ marks, isQuote c = false)
    (hq : isQuote quote) (hbody : IsBody quote body)
    (ht : t.trim = marks ++ quote :: (body ++ quote :: rest)) : rest = [] := by
  have hnot : ∀ {u : Text}, (∀ c ∈ u, isQuote c = false) → ∀ c ∈ u, (!isQuote c) = true :=
    fun hu c hc => by simp [hu c hc]
  have hhead : ∀ {q : Char} {u : Text}, isQuote q → ∀ c ∈ (q :: u).head?, (!isQuote c) = false :=
    fun hq => Text.head_of_cons (by simp [hq])
  obtain ⟨-, hopened⟩ := Text.span_unique (hnot hmarks) (hnot h.notMem_marks) (hhead hq)
    (hhead h.isQuote_quote) (ht.symm.trans h.trim_eq)
  obtain ⟨rfl, hbehind⟩ := List.cons_eq_cons.1 hopened
  have hread : bodyFrom l.quote false (body ++ l.quote :: rest) = some (body, rest) :=
    bodyFrom_of_isBody (isQuote_ne hq).1 hbody
  rw [hbehind, bodyFrom_of_isBody (isQuote_ne hq).1 h.isBody] at hread
  exact (Prod.mk.inj (Option.some.inj hread)).2.symm

theorem IsOf.isAlpha_or_isQuote (h : l.IsOf t) (ht : t.trim = left ++ sign :: right)
    (hleft : Quoting.IsClosed left) : sign.isAlpha ∨ isQuote sign := by
  have hmarks : l.marks.foldl Quoting.step .outside = .outside :=
    Quoting.isClosed_iff.1 (Quoting.isClosed_of_forall h.notMem_marks)
  rcases List.append_eq_append_iff.1 (h.trim_eq.symm.trans ht) with ⟨u, rfl, hu⟩ | ⟨u, hu, hsign⟩
  · cases u with
    | nil =>
      obtain ⟨rfl, -⟩ := List.cons_eq_cons.1 hu
      exact Or.inr h.isQuote_quote
    | cons q u =>
      -- `left` would end within the body
      obtain ⟨rfl, hbehind⟩ := List.cons_eq_cons.1 hu
      have hprefix : u <+: l.body := by
        rcases List.append_eq_append_iff.1 hbehind with ⟨w, rfl, hw⟩ | ⟨w, hw, -⟩
        · cases w with
          | nil => simp
          | cons d w => simp at hw
        · exact ⟨w, hw.symm⟩
      obtain ⟨v, hv⟩ := hprefix
      have hinside : u.foldl Quoting.step (.inside l.quote) = .outside := by
        have hscan := Quoting.isClosed_iff.1 hleft
        rwa [List.foldl_append, hmarks, List.foldl_cons, Quoting.step, if_pos h.isQuote_quote] at hscan
      exact absurd hinside (Quoting.foldl_body_ne_outside (hv ▸ h.isBody))
  · cases u with
    | nil =>
      obtain ⟨rfl, -⟩ := List.cons_eq_cons.1 hsign
      exact Or.inr h.isQuote_quote
    | cons d u =>
      obtain ⟨rfl, -⟩ := List.cons_eq_cons.1 hsign
      exact Or.inl (h.isAlpha_marks sign (by simp [hu]))

/-- **The literals and their parts.**  A text is read as a literal exactly if it is that literal written
out, and it is no other literal.  It is none if something stands behind a closed literal, and none if a
sign that is neither a letter nor a quote stands outside literals, as in a joining or a call. -/
theorem ofText?_eq_some_iff_and_eq_none (t : Text) :
    (∀ l : StringLiteral, ofText? t = some l ↔ l.IsOf t) ∧
    (∀ l l' : StringLiteral, l.IsOf t → l'.IsOf t → l = l') ∧
    (∀ (marks : Text) (quote : Char) (body rest : Text), (∀ c ∈ marks, isQuote c = false) →
      isQuote quote → IsBody quote body → rest ≠ [] →
      t.trim = marks ++ quote :: (body ++ quote :: rest) → ofText? t = none) ∧
    ∀ (left : Text) (sign : Char) (right : Text), t.trim = left ++ sign :: right →
      Quoting.IsClosed left → sign.isAlpha = false → isQuote sign = false → ofText? t = none := by
  refine ⟨fun l => ofText?_eq_some_iff, fun l l' h h' => ?_,
    fun marks quote body rest hmarks hq hbody hrest ht => ?_,
    fun left sign right ht hleft halpha hquote => ?_⟩
  · have hread := ofText?_eq_some_iff.2 h
    rw [ofText?_eq_some_iff.2 h'] at hread
    exact (Option.some.inj hread).symm
  · refine Option.eq_none_iff_forall_ne_some.2 fun l h => hrest ?_
    exact (ofText?_eq_some_iff.1 h).rest_eq_nil hmarks hq hbody ht
  · refine Option.eq_none_iff_forall_ne_some.2 fun l h => ?_
    have hsign := (ofText?_eq_some_iff.1 h).isAlpha_or_isQuote ht hleft
    simp [halpha, hquote] at hsign

/-- Two letters, and quotes of all kinds in the body; a joining, a call, and two literals side by side. -/
theorem ofText?_eq_some_iff_and_eq_none_joining :
    let t : Text := " rB\"it\\\"s a `'\" ".toList
    let l : StringLiteral := ⟨"rB".toList, '"', "it\\\"s a `'".toList⟩
    let joining : Text := "'a' + \"b\"".toList
    let call : Text := "f('a')".toList
    let pair : Text := "'a''b'".toList
    l.IsOf t ∧ ofText? t = some l ∧ ofText? joining = none ∧ ofText? call = none ∧
      ofText? pair = none := by
  intro t l joining call pair
  have hl : l.IsOf t := ofText?_eq_some_iff.1 (by decide)
  refine ⟨hl, ((ofText?_eq_some_iff_and_eq_none t).1 l).2 hl, ?_, ?_, ?_⟩
  · have hclosed : Quoting.IsClosed "'a' ".toList := Quoting.isClosed_iff.2 (by decide)
    exact (ofText?_eq_some_iff_and_eq_none joining).2.2.2 "'a' ".toList '+' " \"b\"".toList (by decide)
      hclosed (by decide) (by decide)
  · have hclosed : Quoting.IsClosed "f".toList := Quoting.isClosed_iff.2 (by decide)
    exact (ofText?_eq_some_iff_and_eq_none call).2.2.2 "f".toList '(' "'a')".toList (by decide)
      hclosed (by decide) (by decide)
  · have ha : IsBody '\'' "a".toList := .one (by decide) (by decide) .nil
    exact (ofText?_eq_some_iff_and_eq_none pair).2.2.1 [] '\'' "a".toList "'b'".toList (by decide)
      (by decide) ha (by decide) (by decide)

end DryRun.StringLiteral
