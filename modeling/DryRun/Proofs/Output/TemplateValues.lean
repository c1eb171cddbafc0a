import DryRun.Proofs.Output.Escapes
import DryRun.Proofs.Template.Pass

/-!
# Values in templates

Escapes are resolved when the markers of a template are filled in already, in a text of which the values
are a part.  A backslash that takes nothing along in front of a marker so comes to stand before the
value.  Only in Python there may be one, since a backslash does not keep a brace from opening a marker
there (`endsOpen_of_opensNoMarker`).  The value is printed as it is, and the text around it as if it
stood alone, exactly if there is no such backslash or it stays one in front of what follows
(`printedArgument_value_iff`).
-/

namespace DryRun

open StringLiteral

variable {language : Language} {b : Bindings} {a p q t v x before after : Text} {c : Char}
  {l : StringLiteral}

/-! ### A backslash in front of a text -/

namespace StringLiteral

/-- Whether a backslash stays as it is in front of a text, and the text behind it is read as if the
backslash were not there. -/
def standsAlone : Text → Bool
  | [] => true
  | ['\\'] => false
  | '\\' :: '\\' :: t => standsAlone t
  | '\\' :: c :: _ => Comment.isQuote c || c == '$'
  | c :: _ => !isEscape c

theorem escapeText_eq_pair_iff : escapeText c = ['\\', c] ↔ isEscape c = false := by
  refine ⟨fun h => Bool.eq_false_iff.2 fun hc => ?_, escapeText_of_not_isEscape⟩
  have hlen := length_escapeText hc
  rw [h] at hlen
  cases hlen

theorem escapeText_eq_self_iff : escapeText c = [c] ↔ c = '\\' ∨ Comment.isQuote c ∨ c = '$' := by
  unfold escapeText
  split
  · rename_i hc
    subst hc
    decide
  · split
    · rename_i hc
      subst hc
      decide
    · split
      · rename_i hc
        simp [hc]
      · rename_i hc
        simpa using hc

/-- What `standsAlone` tells. -/
theorem resolveEscapes_backslash_iff :
    resolveEscapes ('\\' :: t) = '\\' :: resolveEscapes t ↔ standsAlone t := by
  fun_induction standsAlone t with
  | case1 => decide
  | case2 => decide
  | case3 t ih =>
    have hpair : escapeText '\\' = ['\\'] := rfl
    rw [resolveEscapes, resolveEscapes, hpair, ← ih]
    simp
  | case4 c t hc =>
    -- the two backslashes make a pair, and the character behind them is left to itself
    have hpair : escapeText '\\' = ['\\'] := rfl
    have hself : escapeText c = [c] ↔ (Comment.isQuote c || c == '$') := by
      rw [escapeText_eq_self_iff, Bool.or_eq_true, beq_iff_eq]
      exact or_iff_right hc
    rw [resolveEscapes, resolveEscapes_cons hc, resolveEscapes, hpair, ← hself]
    constructor
    · intro h
      have h : [c] ++ resolveEscapes t = escapeText c ++ resolveEscapes t := (List.cons.inj h).2
      exact (List.append_cancel_right h).symm
    · intro h
      rw [h]
      rfl
  | case5 c t h1 h2 h3 =>
    have hc : c ≠ '\\' := by
      rintro rfl
      cases t with
      | nil => exact h1 rfl rfl
      | cons d t => exact h3 d t rfl rfl
    rw [resolveEscapes, resolveEscapes_cons hc, Bool.not_eq_true', ← escapeText_eq_pair_iff]
    constructor
    · intro h
      have h : escapeText c ++ resolveEscapes t = ['\\', c] ++ resolveEscapes t := h
      exact List.append_cancel_right h
    · intro h
      rw [h]
      rfl

/-- A literal as it is written. -/
def text (l : StringLiteral) : Text := l.marks ++ l.quote :: (l.body ++ [l.quote])

end StringLiteral

/-! ### Text in front of a marker -/

/-- In the other languages unmarked text does not end in a backslash that takes nothing along. -/
theorem endsOpen_of_opensNoMarker (hp : language.opensNoMarker p) : endsOpen p = false := by
  induction p using body_induction with
  | nil => rfl
  | lone => cases hp
  | pair c p ih => exact ih (opensNoMarker_pair_iff.1 hp).2
  | one c p hc ih => rw [endsOpen_cons hc, ih ((opensNoMarker_cons_iff hc).1 hp).2]

/-- A marker behind unmarked text takes nothing along that stands behind it. -/
theorem endsOpen_append_marker (hl : language.braces = some (before, after))
    (hp : language.IsUnmarked p) (hx : x.isName) :
    endsOpen (p ++ (before ++ (x ++ after))) = false := by
  have hclosed : endsOpen (before ++ (x ++ after)) = false :=
    (marker_closed (List.mem_append_left _ (Option.mem_toList.2 hl)) hx).2
  cases hopen : endsOpen p with
  | false => rw [endsOpen_append hopen, hclosed]
  | true =>
    by_cases hpython : language = .python
    · -- the backslash takes the brace along
      subst hpython
      obtain ⟨rfl, rfl⟩ := Prod.mk.inj (Option.some.inj hl)
      obtain ⟨s, rfl, hs⟩ := exists_of_endsOpen hopen
      have hpair : endsOpen (['\\'] ++ (['{'] ++ (x ++ ['}']))) = endsOpen (x ++ ['}']) := rfl
      have hname : '\\' ∉ x ++ ['}'] := by
        simp [Text.notMem_of_isName hx (c := '\\') (by decide)]
      rw [List.append_assoc, endsOpen_append hs, hpair, endsOpen_of_notMem hname]
    · rw [endsOpen_of_opensNoMarker ((isUnmarked_iff hpython).1 hp)] at hopen
      cases hopen

/-! ### A value in a template -/

/-- **A value is printed as it is, and the text around it as if it stood alone**, exactly if no backslash
reaches from the text in front of the marker to what comes to stand behind it, or the backslash stays
one there. -/
theorem printedArgument_value_iff (hl : language.braces = some (before, after))
    (ha : ofText? a = some l) (htemplate : l.isTemplate language) (hraw : l.isRaw language = false)
    (hbody : l.body = p ++ (before ++ (x ++ (after ++ q)))) (hp : language.IsUnmarked p)
    (hx : x.isName) (hv : b.get? x = some v) (hback : '\\' ∉ v) :
    printedArgument language b a =
        resolveEscapes p ++ (v ++ printedArgument language b { l with body := q }.text) ↔
      endsOpen p = false ∨ standsAlone (v ++ fillTemplate language b q) := by
  have hvalue : TemplateSyntax.value? b x = some v := by
    rw [TemplateSyntax.value?, Text.trim_of_isName hx, if_pos hx, hv]
  have hfilled : fillTemplate language b l.body = p ++ (v ++ fillTemplate language b q) := by
    rw [hbody, fillTemplate_append_bracketed hl hp (isEnclosed_of_isName hx), hvalue,
      Option.getD_some]
  have hwhole : printedArgument language b a = resolveEscapes (p ++ (v ++ fillTemplate language b q)) := by
    rw [printedArgument_of_ofText? ha, printed_of_isTemplate htemplate hraw, hfilled]
  obtain ⟨hlen, hm, hq, hread⟩ := parts_of_ofText? ha
  have hrest : IsBody l.quote q := by
    rw [hbody] at hread
    exact IsBody.right (s := p ++ (before ++ (x ++ after))) (by simpa using hread)
      (endsOpen_append_marker hl hp hx)
  have hbehind : v ++ printedArgument language b { l with body := q }.text =
      resolveEscapes (v ++ fillTemplate language b q) := by
    have hprinted : printedArgument language b { l with body := q }.text =
        resolveEscapes (fillTemplate language b q) :=
      (printedArgument_quoted hlen hm hq hrest).trans
        (printed_of_isTemplate (l := { l with body := q }) htemplate hraw)
    rw [hprinted, resolveEscapes_append (endsOpen_of_notMem hback), resolveEscapes_of_notMem hback]
  rw [hwhole, hbehind]
  cases hend : endsOpen p with
  | false => simp [resolveEscapes_append hend]
  | true =>
    -- the backslash in front of the marker meets the value
    obtain ⟨s, rfl, hs⟩ := exists_of_endsOpen hend
    rw [List.append_assoc, resolveEscapes_append hs, resolveEscapes_append hs, List.append_assoc,
      List.append_cancel_left_eq]
    simpa [resolveEscapes] using resolveEscapes_backslash_iff

/-- A letter that means nothing behind a backslash, which is the one in front of the brace. -/
theorem printedArgument_value_data :
    let b := (∅ : Bindings).insert "dir".toList "data".toList
    let l : StringLiteral := ⟨['f'], '"', "C:\\\x7bdir\x7d\\n".toList⟩
    ofText? l.text = some l ∧ l.isTemplate .python ∧ l.isRaw .python = false ∧
      Language.python.IsUnmarked "C:\\".toList ∧ Text.isName "dir".toList ∧
      b.get? "dir".toList = some "data".toList ∧ '\\' ∉ "data".toList ∧
      standsAlone ("data".toList ++ fillTemplate .python b "\\n".toList) ∧
      printedArgument .python b l.text = "C:\\data\n".toList := by
  intro b l
  have hl : ofText? l.text = some l := by decide
  have hp : Language.python.IsUnmarked "C:\\".toList := by decide
  have hv : b.get? "dir".toList = some "data".toList := Bindings.get?_insert_self ∅ _ _
  have hq : standsAlone ("data".toList ++ fillTemplate .python b "\\n".toList) := rfl
  have hprinted := (printedArgument_value_iff (b := b) (p := "C:\\".toList) (x := "dir".toList)
    (q := "\\n".toList) rfl hl rfl rfl rfl hp (by decide) hv (by decide)).2 (Or.inr hq)
  have hparts : resolveEscapes "C:\\".toList ++ ("data".toList ++
      printedArgument .python b { l with body := "\\n".toList }.text) = "C:\\data\n".toList := by
    decide +kernel
  exact ⟨hl, rfl, rfl, hp, by decide, hv, by decide, hq, hprinted.trans hparts⟩

/-- An `n` makes a line feed of it. -/
theorem not_printedArgument_value :
    ¬ ∀ (language : Language) (b : Bindings) (l : StringLiteral) (a before after p x v q : Text),
      language.braces = some (before, after) → ofText? a = some l → l.isTemplate language →
      l.isRaw language = false → l.body = p ++ (before ++ (x ++ (after ++ q))) →
      language.IsUnmarked p → x.isName → b.get? x = some v → '\\' ∉ v →
      printedArgument language b a =
        resolveEscapes p ++ (v ++ printedArgument language b { l with body := q }.text) := by
  intro h
  let b := (∅ : Bindings).insert "dir".toList "new".toList
  let l : StringLiteral := ⟨['f'], '"', "C:\\\x7bdir\x7d".toList⟩
  have hv : b.get? "dir".toList = some "new".toList := Bindings.get?_insert_self ∅ _ _
  have hprinted := h .python b l l.text ['{'] ['}'] "C:\\".toList "dir".toList "new".toList []
    rfl (by decide) rfl rfl rfl (by decide) (by decide) hv (by decide)
  exact absurd hprinted (by decide +kernel)

end DryRun
