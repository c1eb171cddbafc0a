import Mathlib.Data.List.Basic
import DryRun.Call
import DryRun.Proofs.Lookup
import DryRun.Proofs.Nesting
import DryRun.Proofs.Numeral

/-!
# Calls with literals

An argument may be a literal (`Literal`), by itself or behind a label (`Labelled`).  Arguments joined
with commas count one after another, as they stand (`applyArguments_argumentList`).  A list that gives
every parameter one literal, each in the parameter's position or behind its label, binds every
parameter to its literal and no other name (`get?_applyArguments_literals`).
-/

namespace DryRun.Call

open Comment (isQuote)
open Nesting (Passes top passes_of_forall passes_quoted)
open StringLiteral (IsBody isQuote_ne)

/-! ### Arguments -/

/-- An argument that stands for itself: a body in `"` or `'`, or a numeral. -/
inductive Literal where
  | quoted (quote : Char) (body : Text) (hquote : quote = '"' ∨ quote = '\'') (hbody : IsBody quote body)
  | numeral (t : Text) (ht : t.isNumeral)

namespace Literal

def text : Literal → Text
  | quoted quote body _ _ => quote :: (body ++ [quote])
  | numeral t _ => t

/-- What a literal stands for, escapes as written. -/
def value : Literal → Text
  | quoted _ body _ _ => body
  | numeral t _ => t

end Literal

/-- A literal behind a label, in a language with labels. -/
structure Labelled (language : Language) where
  label : Text
  mark : Char
  /-- The white space around the mark. -/
  before : Text
  after : Text
  value : Literal
  label_isName : label.isName
  labelMark_eq : language.labelMark = some mark
  before_blank : before.isBlank
  after_blank : after.isBlank

def Labelled.text {language : Language} (a : Labelled language) : Text :=
  a.label ++ (a.before ++ a.mark :: (a.after ++ a.value.text))

/-- A literal as an argument, by itself or behind a label. -/
inductive Argument (language : Language) where
  | bare (l : Literal)
  | labelled (a : Labelled language)

namespace Argument

variable {language : Language}

def text : Argument language → Text
  | bare l => l.text
  | labelled a => a.text

def value : Argument language → Text
  | bare l => l.value
  | labelled a => a.value.value

/-- Whether an argument in a position is meant for a parameter. -/
def IsFor (s : Signature) (position : Nat) (p : Parameter) : Argument language → Prop
  | bare _ => s.parameters[position]? = some p
  | labelled a => p.label = some a.label

end Argument

variable {language : Language} {s : Signature} {b : Bindings} {angle : Bool} {quote mark : Char}
  {t label : Text}

/-! ### Reading an argument -/

/-- Signs of labels stand neither in names nor in white space. -/
theorem labelMark_apart (h : language.labelMark = some mark) :
    (Unicode.isAlphanumeric mark || mark == '_') = false ∧ Unicode.isWhiteSpace mark = false ∧
      isQuote mark = false ∧ mark ≠ '-' ∧ mark ∉ Nesting.signs := by
  cases language <;> cases h <;> decide

theorem labelled?_of_notMem (h : ∀ mark ∈ language.labelMark, mark ∉ t) : labelled? language t = none := by
  unfold labelled?
  cases hmark : language.labelMark with
  | none => rfl
  | some mark => simp [Text.splitOnce_of_notMem (h mark (by simp [hmark]))]

theorem labelled?_of_isQuote (hq : isQuote quote) : labelled? language (quote :: t) = none := by
  unfold labelled?
  cases hmark : language.labelMark with
  | none => rfl
  | some mark =>
    have hne : quote ≠ mark := by
      rintro rfl
      rw [(labelMark_apart hmark).2.2.1] at hq
      cases hq
    have hsplit : Text.splitOnce mark (quote :: t) = (t.splitOnce mark).map (Prod.map (quote :: ·) id) := by
      rw [Text.splitOnce, if_neg hne]
      rfl
    have hclass : (Unicode.isAlphanumeric quote || quote == '_') = false := by
      simp only [isQuote, Bool.or_eq_true, beq_iff_eq] at hq
      rcases hq with (rfl | rfl) | rfl <;> decide
    have hname : ∀ label, (Text.trim (quote :: label)).isName = false := by
      intro label
      refine Bool.eq_false_iff.2 fun h => Text.notMem_of_isName h hclass ?_
      exact Text.mem_trim (by simp) (isQuote_ne hq).2
    cases h : t.splitOnce mark <;> simp [hsplit, h, hname]

/-- What stands behind a label and its mark is the value, unless it makes a comparison of it. -/
theorem labelled?_append {before after value : Text} (hmark : language.labelMark = some mark)
    (hlabel : label.isName) (hbefore : before.isBlank) (hafter : after.isBlank)
    (hvalue : value.IsTrimmed) (hhead : ∀ c ∈ value.head?, c ≠ '=') :
    labelled? language (label ++ (before ++ mark :: (after ++ value))) = some (label, value) := by
  obtain ⟨hclass, hws, -⟩ := labelMark_apart hmark
  have hsplit : Text.splitOnce mark (label ++ (before ++ mark :: (after ++ value))) =
      some (label ++ before, after ++ value) := by
    rw [← List.append_assoc]
    refine Text.splitOnce_append ?_ _
    rw [List.mem_append, not_or]
    exact ⟨Text.notMem_of_isName hlabel hclass, Text.notMem_of_isBlank hbefore hws⟩
  have hname : Text.trim (label ++ before) = label := by
    rw [Text.trim_append_blank label hbefore, Text.trim_of_isName hlabel]
  have htrim : Text.trim (after ++ value) = value := by
    rw [Text.trim_blank_append hafter, hvalue.trim_eq]
  have hfirst : ∀ c ∈ (after ++ value).head?, (c == '=') = false := by
    refine Text.head_of_blank_append hafter (fun c hc => ?_) fun c hc => by simpa using hhead c hc
    rw [beq_eq_false_iff_ne]
    rintro rfl
    exact absurd hc (by decide)
  have hfirst : (after ++ value).head? ≠ some '=' := fun h => by simpa using hfirst '=' h
  simp only [labelled?, hmark, Option.bind_eq_bind, Option.bind_some, hsplit, hname, htrim]
  rw [if_pos ⟨hlabel, hfirst⟩]

theorem of_mem_numeral {c : Char} (ht : t.isNumeral) (hc : c ∈ t) :
    (c == '-' || c == '.' || c.isDigit) = true := by
  rcases forall_mem_of_isNumeral ht c hc with rfl | rfl | h <;> simp [*]

theorem applyArgument_of_position {p : Parameter} {v : Text} {k : Nat}
    (hlabel : labelled? language t = none) (hp : s.parameters[k]? = some p) (hv : value? b t = some v) :
    applyArgument language s b t k = b.insert p.name v := by
  simp [applyArgument, target?, hlabel, hp, hv]

/-- Of parameters with different labels, the one with a label is the first with it. -/
theorem find?_label {ps : List Parameter} {p : Parameter} (hps : (ps.filterMap (·.label)).Nodup)
    (hp : p ∈ ps) (hlabel : p.label = some label) : ps.find? (·.label == some label) = some p := by
  induction ps with
  | nil => cases hp
  | cons q ps ih =>
    rcases List.mem_cons.1 hp with rfl | hp
    · simp [hlabel]
    · have hmem : label ∈ ps.filterMap (·.label) := List.mem_filterMap.2 ⟨p, hp, hlabel⟩
      cases hq : q.label with
      | none =>
        rw [List.filterMap_cons_none hq] at hps
        simpa [hq] using ih hps hp
      | some other =>
        rw [List.filterMap_cons_some hq, List.nodup_cons] at hps
        have hne : other ≠ label := by
          rintro rfl
          exact hps.1 hmem
        simpa [hq, hne] using ih hps.2 hp

/-! ### Literals -/

namespace Literal

theorem isQuote_of_eq (h : quote = '"' ∨ quote = '\'') : isQuote quote := by
  rcases h with rfl | rfl <;> rfl

theorem isTrimmed_text (l : Literal) : l.text.IsTrimmed := by
  cases l with
  | quoted quote body hquote hbody =>
    exact @StringLiteral.isTrimmed_quoted quote body [] (by simp) (isQuote_of_eq hquote)
  | numeral t ht => exact isTrimmed_of_isNumeral ht

theorem passes_text (l : Literal) : Passes angle top l.text top := by
  cases l with
  | quoted quote body hquote hbody => exact passes_quoted (isQuote_of_eq hquote) hbody
  | numeral t ht => exact passes_of_forall (by decide) fun c hc => of_mem_numeral ht hc

theorem head_text (l : Literal) : ∀ c ∈ l.text.head?, isQuote c ∨ c = '-' ∨ c.isDigit := by
  cases l with
  | quoted quote body hquote hbody =>
    intro c hc
    obtain rfl : quote = c := by simpa [text] using hc
    exact Or.inl (isQuote_of_eq hquote)
  | numeral t ht => exact fun c hc => Or.inr (head_of_isNumeral ht c hc)

theorem labelled?_text (l : Literal) : labelled? language l.text = none := by
  cases l with
  | quoted quote body hquote hbody => exact labelled?_of_isQuote (isQuote_of_eq hquote)
  | numeral t ht =>
    refine labelled?_of_notMem fun mark hmark h => ?_
    rcases forall_mem_of_isNumeral ht mark h with rfl | rfl | h <;>
      cases language <;> cases hmark <;> contradiction

theorem value?_text (l : Literal) : value? b l.text = some l.value := by
  cases l with
  | quoted quote body hquote hbody =>
    have hq := isQuote_of_eq hquote
    have hliteral : StringLiteral.ofText? (quote :: (body ++ [quote])) = some ⟨[], quote, body⟩ :=
      @StringLiteral.ofText?_of_isBody quote body [] (by simp) (by simp) hq hbody
    have hplain : StringLiteral.plainBody? ⟨[], quote, body⟩ = some body := by
      rcases hquote with rfl | rfl <;> rfl
    simp [value?, text, hliteral, hplain, value]
  | numeral t ht =>
    have hliteral : StringLiteral.ofText? t = none := by
      refine StringLiteral.ofText?_eq_none ?_
      rw [(isTrimmed_of_isNumeral ht).trim_eq]
      exact fun c hc => Comment.isQuote_eq_false (p := fun c => c == '-' || c == '.' || c.isDigit)
        (by decide) (of_mem_numeral ht hc)
    simp [value?, text, hliteral, ht, value]

end Literal

/-! ### Labels -/

namespace Labelled

variable (a : Labelled language)

theorem isTrimmed_text : a.text.IsTrimmed := by
  have h := (Text.isTrimmed_of_isName a.label_isName).append (a.before ++ a.mark :: a.after)
    a.value.isTrimmed_text
  simpa [text] using h

theorem passes_text : Passes angle top a.text top := by
  have hname : Passes angle top a.label top :=
    passes_of_forall (by decide) (Text.forall_mem_of_isName a.label_isName).2
  have hblank : ∀ {t : Text}, t.isBlank → Passes angle top t top := fun h =>
    passes_of_forall (by decide) (List.all_eq_true.1 h)
  have hmark : Passes angle top [a.mark] top := by
    refine Nesting.passes_of_notMem_signs fun c hc => ?_
    rw [List.mem_singleton.1 hc]
    exact (labelMark_apart a.labelMark_eq).2.2.2.2
  have h := hname.append ((hblank a.before_blank).append
    (hmark.append ((hblank a.after_blank).append a.value.passes_text)))
  simpa [text] using h

theorem labelled?_text : labelled? language a.text = some (a.label, a.value.text) := by
  refine labelled?_append a.labelMark_eq a.label_isName a.before_blank a.after_blank
    a.value.isTrimmed_text fun c hc => ?_
  rintro rfl
  rcases a.value.head_text '=' hc with h | h | h <;> exact absurd h (by decide)

/-- A label that a parameter has decides. -/
theorem applyArgument_of_label {p : Parameter} {k : Nat}
    (hp : s.parameters.find? (·.label == some a.label) = some p) :
    applyArgument language s b a.text k = b.insert p.name a.value.value := by
  simp [applyArgument, target?, a.labelled?_text, hp, a.value.value?_text]

end Labelled

namespace Argument

theorem isTrimmed_text : ∀ a : Argument language, a.text.IsTrimmed
  | bare l => l.isTrimmed_text
  | labelled a => a.isTrimmed_text

theorem passes_text : ∀ a : Argument language, Passes angle top a.text top
  | bare l => l.passes_text
  | labelled a => a.passes_text

/-- An argument binds the parameter that it is meant for. -/
theorem applyArgument_text {a : Argument language} {p : Parameter} {k : Nat}
    (hlabels : (s.parameters.filterMap (·.label)).Nodup) (hp : p ∈ s.parameters)
    (ha : a.IsFor s k p) : applyArgument language s b a.text k = b.insert p.name a.value := by
  cases a with
  | bare l => exact applyArgument_of_position l.labelled?_text ha l.value?_text
  | labelled a => exact a.applyArgument_of_label (find?_label hlabels hp ha)

end Argument

/-! ### Lists of arguments -/

/-- Arguments joined with commas. -/
def argumentList (texts : List Text) : Text := List.intercalate [',', ' '] texts

/-- They count one after another, as they stand. -/
theorem applyArguments_argumentList {α : Type} {l : List α} {text : α → Text}
    {step : Bindings → α → Bindings}
    (htext : ∀ x ∈ l, (text x).IsTrimmed ∧ Passes false top (text x) top)
    (hstep : ∀ (b : Bindings) (k : Nat), ∀ x ∈ l[k]?,
      applyArgument language s b (text x) k = step b x) :
    applyArguments language s b (argumentList (l.map text)) = l.foldl step b := by
  have hmember : ∀ (b : Bindings), ∀ x ∈ l.zipIdx,
      applyArgument language s b (text x.1) x.2 = step b x.1 := fun b x hx =>
    hstep b x.2 x.1 (List.mem_zipIdx_iff_getElem?.1 hx)
  calc applyArguments language s b (argumentList (l.map text))
      = l.zipIdx.foldl (fun b x => applyArgument language s b (text x.1) x.2) b := by
        rw [applyArguments, argumentList, Nesting.split_intercalate (List.forall_mem_map.2 htext),
          List.zipIdx_map, List.foldl_map]
        rfl
    _ = l.zipIdx.foldl (fun b x => step b x.1) b := List.foldl_ext _ _ b hmember
    _ = (l.zipIdx.map Prod.fst).foldl step b := List.foldl_map.symm
    _ = l.foldl step b := by rw [List.zipIdx_map_fst]

/-- **Literals reach the parameters that they are meant for.**  If every parameter is given one literal,
in its own position or behind its label, then it is bound to that, and all other names are bound as
before. -/
theorem get?_applyArguments_literals {given : List (Parameter × Argument language)}
    (hnames : (s.parameters.map (·.name)).Nodup) (hlabels : (s.parameters.filterMap (·.label)).Nodup)
    (hgiven : (given.map Prod.fst).Perm s.parameters)
    (hfor : ∀ k : Nat, ∀ x ∈ given[k]?, x.2.IsFor s k x.1) :
    (∀ x ∈ given, (applyArguments language s b
        (argumentList (given.map fun x => x.2.text))).get? x.1.name = some x.2.value) ∧
      ∀ name ∉ s.parameters.map (·.name), (applyArguments language s b
        (argumentList (given.map fun x => x.2.text))).get? name = b.get? name := by
  have hmem : ∀ {x : Parameter × Argument language}, x ∈ given → x.1 ∈ s.parameters := fun hx =>
    hgiven.mem_iff.1 (List.mem_map_of_mem hx)
  -- every argument binds its own parameter, whatever is bound before
  have hrun : applyArguments language s b (argumentList (given.map fun x => x.2.text)) =
      (given.map fun x => (x.1.name, x.2.value)).foldl (fun b w => b.insert w.1 w.2) b := by
    rw [List.foldl_map]
    exact applyArguments_argumentList (fun x _ => ⟨x.2.isTrimmed_text, x.2.passes_text⟩) fun b k x hx =>
      Argument.applyArgument_text hlabels (hmem (List.mem_of_getElem? hx)) (hfor k x hx)
  have hkeys : ((given.map fun x => (x.1.name, x.2.value)).map Prod.fst).Perm
      (s.parameters.map (·.name)) := by
    simpa [Function.comp_def] using hgiven.map (·.name)
  rw [hrun]
  refine ⟨fun x hx => ?_, fun name hname => ?_⟩
  · exact Bindings.get?_foldl_insert_of_mem (hkeys.nodup_iff.2 hnames)
      (List.mem_map.2 ⟨x, hx, rfl⟩)
  · exact Bindings.get?_foldl_insert_of_notMem fun h => hname (hkeys.mem_iff.1 h)

/-- A comma, a bracket and marks of labels in the bodies, and two labels that change places. -/
theorem get?_applyArguments_literals_swift :
    let x : Parameter := ⟨some "to".toList, "x".toList⟩
    let y : Parameter := ⟨none, "y".toList⟩
    let z : Parameter := ⟨some "by".toList, "z".toList⟩
    let s : Signature := ⟨"move".toList, [x, y, z], 5⟩
    let b := (∅ : Bindings).insert "w".toList "kept".toList
    let b' := applyArguments .swift s b "by: \"a, to: (\\\"\", 'z: 1', to :-2.5".toList
    (s.parameters.map (·.name)).Nodup ∧ (s.parameters.filterMap (·.label)).Nodup ∧
      b'.get? "x".toList = some "-2.5".toList ∧ b'.get? "y".toList = some "z: 1".toList ∧
      b'.get? "z".toList = some "a, to: (\\\"".toList ∧ b'.get? "w".toList = some "kept".toList := by
  intro x y z s b b'
  have hnames : (s.parameters.map (·.name)).Nodup := by decide
  have hlabels : (s.parameters.filterMap (·.label)).Nodup := by decide
  have hbody : IsBody '"' "a, to: (\\\"".toList :=
    @StringLiteral.isBody_of_bodyFrom '"' "a, to: (\\\"\"".toList [] _ (by decide) rfl
  let first : Labelled .swift :=
    { label := "by".toList, mark := ':', before := [], after := [' '],
      value := .quoted '"' "a, to: (\\\"".toList (Or.inl rfl) hbody,
      label_isName := by decide, labelMark_eq := rfl, before_blank := rfl, after_blank := rfl }
  let last : Labelled .swift :=
    { label := "to".toList, mark := ':', before := [' '], after := [],
      value := .numeral "-2.5".toList (by decide),
      label_isName := by decide, labelMark_eq := rfl, before_blank := rfl, after_blank := rfl }
  let middle : Literal := .quoted '\'' "z: 1".toList (Or.inr rfl)
    (StringLiteral.isBody_of_notMem (by decide) (by decide))
  let given : List (Parameter × Argument .swift) :=
    [(z, .labelled first), (y, .bare middle), (x, .labelled last)]
  have hgiven : (given.map Prod.fst).Perm s.parameters := (by decide : [z, y, x].Perm [x, y, z])
  have hfor : ∀ k : Nat, ∀ x ∈ given[k]?, x.2.IsFor s k x.1
    | 0, _, rfl => rfl
    | 1, _, rfl => rfl
    | 2, _, rfl => rfl
  obtain ⟨hvalues, hothers⟩ := get?_applyArguments_literals (b := b) hnames hlabels hgiven hfor
  refine ⟨hnames, hlabels, hvalues (x, .labelled last) (by simp [given]),
    hvalues (y, .bare middle) (by simp [given]), hvalues (z, .labelled first) (by simp [given]), ?_⟩
  exact (hothers "w".toList (by decide)).trans (Bindings.get?_insert_self ∅ _ _)

end DryRun.Call
