import Mathlib.Data.List.Forall2
import DryRun.Proofs.Definitions
import DryRun.Proofs.Pattern.Restart

/-!
# Lists of parameters

A `FunctionHeader` is a header as Kotlin, Python and Swift write it, with any number of parameters, each with
a type or not and with a default or not.  The pattern of headers ends the list at its first closing
parenthesis, wherever that stands, so what is split into parameters is cut there (`exists_cut`).  What is
left of a parameter still names it (`IsBegunBy.ofText?`), but the parameters behind it are lost, and so is
the next one where an angle bracket of a default stays open: angle brackets count as brackets in such lists
(`names_split_iff`).  So all parameters of a header are reported, and nothing else, exactly if no default
but the last one has a closing parenthesis or leaves an angle bracket open, the name is no keyword, and no
other header stands behind the first closing parenthesis (`names_signatures_iff`).
-/

namespace DryRun

open Nesting (Hides Passes after top)
open Pattern Unicode

/-- A parameter as it is declared.  Its default is closed in brackets and quotes and has no comma outside
them. -/
structure ParameterDeclaration (language : Language) where
  name : Text
  type : Option Text
  default : Option Text
  name_isName : name.isName
  name_free : Parameter.isReceiver language name = false
  type_isName : ∀ t ∈ type, t.isName
  default_closed : ∀ d ∈ default, Passes false top d top

namespace ParameterDeclaration

variable {language : Language} {p : ParameterDeclaration language} {ps : List (ParameterDeclaration language)}
  {t : Text} {m : Nesting}

/-! ### One parameter -/

/-- The name and the type. -/
def typed (p : ParameterDeclaration language) : Text :=
  p.name ++ (p.type.map (':' :: ' ' :: ·)).getD []

def text (p : ParameterDeclaration language) : Text :=
  p.typed ++ (p.default.map (' ' :: '=' :: ' ' :: ·)).getD []

/-- The parameter that the declaration stands for. -/
def parameter (p : ParameterDeclaration language) : Parameter := ⟨some p.name, p.name⟩

/-- Whether a text begins the declaration: it goes at least up to the default's mark, if there is one. -/
def IsBegunBy (p : ParameterDeclaration language) (t : Text) : Prop :=
  t = p.typed ∨ ∃ v, t = p.typed ++ ' ' :: '=' :: v

theorem isBegunBy_text (p : ParameterDeclaration language) : p.IsBegunBy p.text := by
  cases h : p.default with
  | none => exact Or.inl (by simp [text, h])
  | some d => exact Or.inr ⟨' ' :: d, by simp [text, h]⟩

theorem notMem_typed {c : Char} (hc : (isAlphanumeric c || c == '_') = false) (hcolon : c ≠ ':')
    (hspace : c ≠ ' ') : c ∉ p.typed := by
  have hname := Text.notMem_of_isName p.name_isName hc
  cases h : p.type with
  | none => simpa [typed, h] using hname
  | some t => simp [typed, h, hname, hcolon, hspace, Text.notMem_of_isName (p.type_isName t h) hc]

theorem isTrimmed_typed (p : ParameterDeclaration language) : p.typed.IsTrimmed := by
  have hname := Text.isTrimmed_of_isName p.name_isName
  cases h : p.type with
  | none => simpa [typed, h] using hname
  | some t => simpa [typed, h] using hname.append [':', ' '] (Text.isTrimmed_of_isName (p.type_isName t h))

namespace IsBegunBy

theorem isBlank_eq_false (h : p.IsBegunBy t) : t.isBlank = false := by
  rcases h with rfl | ⟨v, rfl⟩
  · exact p.isTrimmed_typed.isBlank_eq_false
  · exact p.isTrimmed_typed.isBlank_append_left _

theorem before (h : p.IsBegunBy t) : p.IsBegunBy (t.before ')') := by
  have hparen : ')' ∉ p.typed := notMem_typed (by decide) (by decide) (by decide)
  rcases h with rfl | ⟨v, rfl⟩
  · exact Or.inl (Text.before_eq_self hparen)
  · refine Or.inr ⟨Text.before ')' v, ?_⟩
    rw [Text.before_append hparen]
    rfl

theorem trim (h : p.IsBegunBy t) : p.IsBegunBy t.trim := by
  rcases h with rfl | ⟨v, rfl⟩
  · exact Or.inl p.isTrimmed_typed.trim_eq
  · have hmark : (p.typed ++ ([' '] ++ ['='])).IsTrimmed := p.isTrimmed_typed.append [' '] (by decide)
    obtain ⟨v', hv'⟩ := hmark.exists_trim_append v
    exact Or.inr ⟨v', by simpa using hv'⟩

/-- **A text that begins a declaration declares the parameter.** -/
theorem ofText? (h : p.IsBegunBy t) : Parameter.ofText? language t = some p.parameter := by
  have hequals : '=' ∉ p.typed := notMem_typed (by decide) (by decide) (by decide)
  have hcolon : ':' ∉ p.name := Text.notMem_of_isName p.name_isName (by decide)
  have hws := Text.isWhiteSpace_of_isName p.name_isName
  have hne := (Text.forall_mem_of_isName p.name_isName).1
  have hwords : ((t.before '=').before ':').words = [p.name] := by
    -- what stands in front of a default may end in a blank
    have hbefore : t.before '=' = p.typed ∨ t.before '=' = p.typed ++ [' '] := by
      rcases h with rfl | ⟨v, rfl⟩
      · exact Or.inl (Text.before_eq_self hequals)
      · exact Or.inr (Text.before_append hequals)
    cases htype : p.type with
    | none =>
      have htyped : p.typed = p.name := by simp [typed, htype]
      rw [htyped] at hbefore
      rcases hbefore with hbefore | hbefore
      · rw [hbefore, Text.before_eq_self hcolon, Text.words_eq_singleton hne hws]
      · rw [hbefore, Text.before_append hcolon]
        exact Text.words_append_cons hne hws (by decide)
    | some type =>
      have hmark : ∀ v, Text.before ':' (p.name ++ ':' :: v) = p.name := fun v => by
        rw [Text.before_append hcolon]
        simp [Text.before]
      have htyped : p.typed = p.name ++ ':' :: ' ' :: type := by simp [typed, htype]
      rw [htyped] at hbefore
      rcases hbefore with hbefore | hbefore <;> rw [hbefore]
      · rw [hmark, Text.words_eq_singleton hne hws]
      · rw [List.append_assoc, List.cons_append, hmark, Text.words_eq_singleton hne hws]
  rw [Parameter.ofText?, hwords]
  simp [stripStars_of_isName p.name_isName, p.name_isName, p.name_free, parameter]

end IsBegunBy

theorem filterMap_ofText? {ts : List Text} (h : List.Forall₂ IsBegunBy ps ts) :
    (ts.map Text.trim).filterMap (Parameter.ofText? language) = ps.map parameter := by
  induction h with
  | nil => rfl
  | cons ht _ ih => rw [List.map_cons, List.filterMap_cons_some ht.trim.ofText?, ih, List.map_cons]

/-! ### Brackets and parentheses -/

theorem passes_typed (p : ParameterDeclaration language) : Passes true top p.typed top := by
  refine Nesting.passes_of_notMem_signs fun c hc hsign => ?_
  have hplain : ∀ c ∈ Nesting.signs, (isAlphanumeric c || c == '_') = false ∧ c ≠ ':' ∧ c ≠ ' ' := by decide
  obtain ⟨hname, hcolon, hspace⟩ := hplain c hsign
  exact notMem_typed hname hcolon hspace hc

/-- A declaration stands for a scan as its default does. -/
theorem exists_text_eq (p : ParameterDeclaration language) :
    ∃ w, p.text = w ++ p.default.getD [] ∧ Passes true top w top := by
  cases h : p.default with
  | none => exact ⟨p.typed, by simp [text, h], p.passes_typed⟩
  | some d =>
    exact ⟨p.typed ++ [' ', '=', ' '], by simp [text, h],
      p.passes_typed.append (Nesting.passes_of_notMem_signs (by decide))⟩

theorem after_text (p : ParameterDeclaration language) :
    after true top p.text = after true top (p.default.getD []) := by
  obtain ⟨w, htext, hw⟩ := p.exists_text_eq
  rw [htext, Nesting.after_append, (Nesting.passes_iff.1 hw).1]

theorem hides_text_iff : Hides true ',' top p.text ↔ Hides true ',' top (p.default.getD []) := by
  obtain ⟨w, htext, hw⟩ := p.exists_text_eq
  obtain ⟨hafter, hcommas, -⟩ := Nesting.passes_iff.1 hw
  rw [htext, Nesting.hides_append, hafter]
  exact and_iff_right hcommas

/-- All its literals are closed, whatever counts as a bracket. -/
theorem quoting_after_text (p : ParameterDeclaration language) :
    (after true top p.text).quoting = .outside := by
  have hclosed : Passes false top (p.default.getD []) top := by
    cases hd : p.default with
    | none => exact .nil
    | some d => exact p.default_closed d hd
  rw [after_text, Nesting.quoting_after, ← Nesting.quoting_after false, (Nesting.passes_iff.1 hclosed).1]
  rfl

theorem paren_mem_text_iff : ')' ∈ p.text ↔ ')' ∈ p.default.getD [] := by
  have htyped : ')' ∉ p.typed := notMem_typed (by decide) (by decide) (by decide)
  cases h : p.default <;> simp [text, h, htyped]

/-! ### A list up to its first closing parenthesis -/

/-- Declarations joined with commas. -/
def listText (ps : List (ParameterDeclaration language)) : Text := List.intercalate [',', ' '] (ps.map text)

/-- Declarations, and one more up to its first closing parenthesis. -/
def cutTexts (front : List (ParameterDeclaration language)) (p : ParameterDeclaration language) : List Text :=
  front.map text ++ [p.text.before ')']

/-- **A list is cut inside a declaration**, the first one with a closing parenthesis or else the last one. -/
theorem exists_cut (hne : ps ≠ []) : ∃ front p behind, ps = front ++ p :: behind ∧
    (∀ q ∈ front, ')' ∉ q.text) ∧ (')' ∈ p.text ∨ behind = []) ∧
    (listText ps).before ')' = List.intercalate [',', ' '] (cutTexts front p) := by
  induction ps with
  | nil => exact absurd rfl hne
  | cons p ps ih =>
    by_cases hps : ps = []
    · subst hps
      exact ⟨[], p, [], rfl, by simp, Or.inr rfl, by simp [listText, cutTexts]⟩
    · obtain ⟨q, qs, hqs⟩ := List.exists_cons_of_ne_nil hps
      have hlist : listText (p :: ps) = p.text ++ ',' :: ' ' :: listText ps := by simp [listText, hqs]
      by_cases hparen : ')' ∈ p.text
      · refine ⟨[], p, ps, rfl, by simp, Or.inl hparen, ?_⟩
        rw [hlist, Text.before_append_of_mem hparen]
        simp [cutTexts]
      · obtain ⟨front, r, behind, rfl, hfront, hr, hcut⟩ := ih hps
        refine ⟨p :: front, r, behind, rfl, by simpa [hparen] using hfront, hr, ?_⟩
        -- the first declaration is kept as a whole, and the cut is in the others
        have hrest : ∀ t, Text.before ')' (',' :: ' ' :: t) = ',' :: ' ' :: Text.before ')' t := fun t => rfl
        obtain ⟨t, ts, hts⟩ := List.exists_cons_of_ne_nil
          (List.append_ne_nil_of_right_ne_nil (front.map text) (List.cons_ne_nil (r.text.before ')') []))
        rw [hlist, Text.before_append hparen, hrest, hcut, cutTexts, cutTexts, List.map_cons, List.cons_append,
          hts]
        simp

theorem hides_before (h : Hides true ',' top t) : Hides true ',' top (t.before ')') := by
  have hcut : t = t.before ')' ++ t.dropWhile (· != ')') := List.takeWhile_append_dropWhile.symm
  rw [hcut] at h
  exact (Nesting.hides_append.1 h).1

/-- If nothing stays open, every declaration is a piece, and so is what is left of the last one. -/
theorem names_split_cutTexts {front : List (ParameterDeclaration language)}
    (hcommas : ∀ t ∈ cutTexts front p, Hides true ',' top t)
    (hfront : ∀ q ∈ front, after true top q.text = top) :
    ((Nesting.split true (List.intercalate [',', ' '] (cutTexts front p))).filterMap
      (Parameter.ofText? language)).map (·.name) = (front ++ [p]).map (·.name) := by
  have hbegun : List.Forall₂ IsBegunBy (front ++ [p]) (cutTexts front p) :=
    List.rel_append (List.forall₂_map_right_iff.2 (List.forall₂_same.2 fun q _ => q.isBegunBy_text))
      (.cons p.isBegunBy_text.before .nil)
  have hpieces : Nesting.split true (List.intercalate [',', ' '] (cutTexts front p)) =
      (cutTexts front p).map Text.trim := by
    refine Nesting.split_intercalate_trim hcommas ?_ ?_
    · rw [cutTexts, List.dropLast_concat, List.forall_mem_map]
      exact hfront
    · intro t ht
      have ht : t ∈ cutTexts front p := by simp [ht]
      rcases List.mem_append.1 ht with ht | ht
      · obtain ⟨q, -, rfl⟩ := List.mem_map.1 ht
        exact q.isBegunBy_text.isBlank_eq_false
      · obtain rfl := List.mem_singleton.1 ht
        exact p.isBegunBy_text.before.isBlank_eq_false
  rw [hpieces, filterMap_ofText? hbegun, List.map_map]
  rfl

/-- **All parameters of a list are read off it exactly if** no default but the last one has a closing
parenthesis or leaves an angle bracket open.  Otherwise there are fewer pieces than parameters. -/
theorem names_split_iff (hopen : ∀ p ∈ ps, Hides true ',' top (p.default.getD [])) :
    ((Nesting.split true ((listText ps).before ')')).filterMap (Parameter.ofText? language)).map (·.name) =
        ps.map (·.name) ↔
      ∀ p ∈ ps.dropLast, ')' ∉ p.default.getD [] ∧ Passes true top (p.default.getD []) top := by
  by_cases hne : ps = []
  · -- nothing is read off an empty list
    subst hne
    exact iff_of_true rfl (by simp)
  obtain ⟨front, p, behind, rfl, hfront, hp, hcut⟩ := exists_cut hne
  have hcommas : ∀ t ∈ cutTexts front p, Hides true ',' top t := by
    rw [cutTexts, List.forall_mem_append, List.forall_mem_map, List.forall_mem_singleton]
    exact ⟨fun q hq => hides_text_iff.2 (hopen q (by simp [hq])),
      hides_before (hides_text_iff.2 (hopen p (by simp)))⟩
  rw [hcut]
  refine ⟨fun hnames => ?_, fun hclosed => ?_⟩
  · -- as many pieces as parameters: nothing is cut off, and every comma between two of them is seen
    have hlength : front.length + (behind.length + 1) ≤
        (Nesting.piecesFrom true top (List.intercalate [',', ' '] (cutTexts front p))).length := by
      have hread := congrArg List.length hnames
      simp only [List.length_map, List.length_append, List.length_cons] at hread
      exact hread ▸ (List.length_filterMap_le _ _).trans (Nesting.length_split_le _ _)
    have houtside : ∀ t ∈ (cutTexts front p).dropLast, (after true top t).quoting = .outside := by
      rw [cutTexts, List.dropLast_concat, List.forall_mem_map]
      exact fun q _ => q.quoting_after_text
    have htexts : (cutTexts front p).length = front.length + 1 := by simp [cutTexts]
    obtain ⟨hle, hall⟩ := Nesting.length_piecesFrom_intercalate (by simp [cutTexts]) hcommas houtside
      (n := top) rfl
    rw [htexts] at hle hall
    obtain rfl : behind = [] := List.length_eq_zero_iff.1 (by omega)
    have hall := hall rfl (Nat.le_antisymm hle hlength)
    rw [cutTexts, List.dropLast_concat, List.forall_mem_map] at hall
    rw [List.dropLast_concat]
    intro q hq
    have hparen : ')' ∉ q.default.getD [] := fun h => hfront q hq (paren_mem_text_iff.2 h)
    exact ⟨hparen, Nesting.passes_iff.2 ⟨q.after_text.symm.trans (hall q hq), hopen q (by simp [hq]),
      Nesting.hides_of_notMem hparen⟩⟩
  · obtain rfl : behind = [] := by
      by_contra hbehind
      -- the cut would be in a default that is not the last one
      have hp' : p ∈ (front ++ p :: behind).dropLast := by
        rw [List.dropLast_append_of_ne_nil (by simp), List.dropLast_cons_of_ne_nil hbehind]
        simp
      exact (hclosed p hp').1 (paren_mem_text_iff.1 (hp.resolve_right hbehind))
    rw [List.dropLast_concat] at hclosed
    exact names_split_cutTexts hcommas fun q hq =>
      q.after_text.trans (Nesting.passes_iff.1 (hclosed q hq).2).1

end ParameterDeclaration

/-! ### The names of a signature -/

namespace Signature

variable {language : Language} {seen w rest before after t : Text} {g : List (Nat × Span)}

/-- The name of a function and those of its parameters. -/
def names (s : Signature) : Text × List Text := (s.name, s.parameters.map (·.name))

/-- Those of the signature in a match. -/
def namesOfMatch? (language : Language) (m : Match) : Option (Text × List Text) :=
  (ofMatch? language m).map names

theorem namesOfMatch?_eq (language : Language) (m : Match) :
    namesOfMatch? language m = (m.group? 1).bind fun name =>
      if keywords.contains name then none
      else some (name, ((Nesting.split true ((m.group? 2).getD [])).filterMap
        (Parameter.ofText? language)).map (·.name)) := by
  simp only [namesOfMatch?, ofMatch?, Match.group?]
  cases m.groupSpan? 1 with
  | none => rfl
  | some span =>
    by_cases hname : span.text ∈ keywords <;> simp [hname, names]

theorem namesOfMatch?_within {p : Pattern} (h : Takes p seen w rest [] g) :
    namesOfMatch? language ((matchOf seen w rest g).within before after) =
      namesOfMatch? language (matchOf seen w rest g) := by
  rw [namesOfMatch?_eq, namesOfMatch?_eq, group?_within h, group?_within h]

theorem name_notMem_keywords {s : Signature} (h : s ∈ signatures language t) : s.name ∉ keywords := by
  obtain ⟨header, -, m, -, hm⟩ := mem_signatures_iff.1 h
  have hnames := namesOfMatch?_eq language m
  rw [namesOfMatch?, hm, Option.map_some, eq_comm, Option.bind_eq_some_iff] at hnames
  obtain ⟨name, -, hname⟩ := hnames
  split at hname
  · cases hname
  · rename_i hfree
    have hsame : name = s.name := congrArg Prod.fst (Option.some.inj hname)
    simpa [hsame] using hfree

end Signature

/-! ### Headers -/

theorem Language.ignoresLines_namedHeader (language : Language) : language.namedHeader.ignoresLines := by
  cases language <;> rfl

/-- A function's header with its parameters. -/
structure FunctionHeader (language : Language) where
  name : Text
  parameters : List (ParameterDeclaration language)
  name_ne_nil : name ≠ []
  name_isWord : ∀ c ∈ name, isWord c

namespace FunctionHeader

open ParameterDeclaration (listText names_split_iff)

variable {language : Language} (h : FunctionHeader language)

def text : Text :=
  language.definingWord.toList ++ ' ' :: (h.name ++ '(' :: (listText h.parameters ++ [')']))

/-- The name of the function and those of its parameters. -/
def names : Text × List Text := (h.name, h.parameters.map (·.name))

/-- A header ends for its pattern at the first closing parenthesis. -/
theorem text_eq : h.text = language.definingWord.toList ++ ' ' ::
    (h.name ++ '(' :: ((listText h.parameters).before ')' ++ [')'])) ++ h.text.after ')' := by
  have hparen : ∀ {t : Text}, (∀ c ∈ t, isWord c) → ')' ∉ t := fun ht hc => absurd (ht _ hc) (by decide)
  have hkeyword := hparen fun c hc => isWord_of_isAlpha ((isLetters_definingWord language).2 c hc)
  have hname := hparen h.name_isWord
  have hopening : ')' ∉ language.definingWord.toList ++ ' ' :: (h.name ++ ['(']) := by simp [hkeyword, hname]
  have hlist : Text.before ')' (listText h.parameters ++ [')']) = Text.before ')' (listText h.parameters) := by
    by_cases hmem : ')' ∈ listText h.parameters
    · exact Text.before_append_of_mem hmem _
    · rw [Text.before_append hmem, Text.before_eq_self hmem]
      exact List.append_nil _
  have hbefore : h.text.before ')' = language.definingWord.toList ++ ' ' ::
      (h.name ++ '(' :: (listText h.parameters).before ')') := by
    have htext : h.text = (language.definingWord.toList ++ ' ' :: (h.name ++ ['('])) ++
        (listText h.parameters ++ [')']) := by simp [text]
    rw [htext, Text.before_append hopening, hlist]
    simp
  have hmem : ')' ∈ h.text := by simp [text]
  have hcut := Text.append_of_splitOnce ((Text.splitOnce_eq ')' h.text).trans (if_pos hmem))
  rw [hbefore] at hcut
  exact hcut.trans (by simp)

/-- What is read off the header's list up to the first closing parenthesis. -/
def readNames : List Text :=
  ((Nesting.split true ((listText h.parameters).before ')')).filterMap (Parameter.ofText? language)).map
    (·.name)

theorem exists_findAll_text (hl : language ≠ .java) (hname : h.name ∉ Signature.keywords) :
    ∃ m before, language.namedHeader.findAll h.text =
        m :: (language.namedHeader.findAll (h.text.after ')')).map (·.within before []) ∧
      Signature.namesOfMatch? language m = some (h.name, h.readNames) := by
  have hmatch := (@prefers_namedHeader language [] _ h.name (h.text.after ')') hl rfl h.name_ne_nil
    h.name_isWord (Text.notMem_before ')' (listText h.parameters))).matchAt?
  have hfound := (congrArg (language.namedHeader.findFrom []) h.text_eq).trans
    (findFrom_of_some (by simp) hmatch)
  have hne : ∀ {seen w rest g}, Takes language.namedHeader seen w rest [] g → w ≠ [] := by
    intro seen w rest g hw
    obtain ⟨_, s, t, rfl, -⟩ := exists_of_takes_namedHeader hw
    simp
  -- words have the same edges behind a parenthesis as at the start of a text
  have hbehind : language.namedHeader.findFrom ((language.definingWord.toList ++ ' ' ::
      (h.name ++ '(' :: ((listText h.parameters).before ')' ++ [')']))).reverse ++ []) (h.text.after ')') = _ :=
    findFrom_behind (sameEdges_of_ignoresLines language.ignoresLines_namedHeader (by simp; decide)) hne _
  rw [hbehind] at hfound
  exact ⟨_, _, hfound, congrArg (Option.map Signature.names) (ofMatch?_headerGroups hname)⟩

/-- **What is found in a header**, apart from the order: the function with what is read off its list up to
the first closing parenthesis, and what is found behind that. -/
theorem names_signatures_perm (hl : language = .kotlin ∨ language = .python ∨ language = .swift)
    (hname : h.name ∉ Signature.keywords) :
    ((signatures language h.text).map Signature.names).Perm
      ((h.name, h.readNames) :: (signatures language (h.text.after ')')).map Signature.names) := by
  have hjava : language ≠ .java := by rcases hl with rfl | rfl | rfl <;> decide
  have hscript : language ≠ .javaScript := by rcases hl with rfl | rfl | rfl <;> decide
  have hall : ∀ t, ((signatures language t).map Signature.names).Perm
      ((language.namedHeader.findAll t).filterMap (Signature.namesOfMatch? language)) := by
    intro t
    have hfound : signatures language t = ((language.namedHeader.findAll t).filterMap
        (Signature.ofMatch? language)).foldr Signature.insert [] := by simp [signatures, headers_eq, hscript]
    have h := (Signature.foldr_insert_perm ((language.namedHeader.findAll t).filterMap
      (Signature.ofMatch? language))).map Signature.names
    rwa [List.map_filterMap, ← hfound] at h
  obtain ⟨m, before, hfound, hm⟩ := h.exists_findAll_text hjava hname
  -- where a header was found does not matter for what is read off it
  have hread : ∀ m ∈ language.namedHeader.findAll (h.text.after ')'),
      (Signature.namesOfMatch? language ∘ (·.within before [])) m = Signature.namesOfMatch? language m := by
    intro m hm
    obtain ⟨u, w, rest, g, -, rfl, hw⟩ := takes_of_mem_findAll hm
    exact Signature.namesOfMatch?_within hw
  have htext := hall h.text
  rw [hfound, List.filterMap_cons_some hm, List.filterMap_map, List.filterMap_congr hread] at htext
  exact htext.trans ((hall _).symm.cons _)

/-- **All parameters of a header are reported, and no other function, exactly if** the name is no keyword,
no default but the last one has a closing parenthesis or leaves an angle bracket open, and no other header
stands behind the first closing parenthesis.  It is assumed that the commas of a default stay within brackets
where angle brackets count as brackets: in `[1 > 0, 2]` the `>` closes the bracket in front of the comma. -/
theorem names_signatures_iff (hl : language = .kotlin ∨ language = .python ∨ language = .swift)
    (hopen : ∀ p ∈ h.parameters, Hides true ',' top (p.default.getD [])) :
    (signatures language h.text).map Signature.names = [h.names] ↔
      h.name ∉ Signature.keywords ∧
      (∀ p ∈ h.parameters.dropLast, ')' ∉ p.default.getD [] ∧ Passes true top (p.default.getD []) top) ∧
      signatures language (h.text.after ')') = [] := by
  by_cases hname : h.name ∈ Signature.keywords
  · refine iff_of_false (fun hnames => ?_) fun h => h.1 hname
    have hmem : h.names ∈ (signatures language h.text).map Signature.names := by simp [hnames]
    obtain ⟨s, hs, hsame⟩ := List.mem_map.1 hmem
    have hsame : s.name = h.name := congrArg Prod.fst hsame
    exact Signature.name_notMem_keywords hs (hsame ▸ hname)
  · rw [← List.perm_singleton, (h.names_signatures_perm hl hname).congr_left, List.perm_singleton,
      List.cons_eq_cons, List.map_eq_nil_iff, names, Prod.mk.injEq, readNames, names_split_iff hopen]
    simp [hname]

/-- A literal with a parenthesis and a comma, a list, and a call in the last default. -/
theorem names_signatures_iff_python :
    let h : FunctionHeader .python := ⟨"greet".toList,
      [⟨"name".toList, some "str".toList, some "\"(, \"".toList, by decide, by decide, by decide, by decide⟩,
        ⟨"marks".toList, none, some "[1, 2 > 1]".toList, by decide, by decide, by decide, by decide⟩,
        ⟨"times".toList, none, some "max(1, 2 > 1)".toList, by decide, by decide, by decide, by decide⟩],
      by decide, by decide⟩
    (∀ p ∈ h.parameters, Hides true ',' top (p.default.getD [])) ∧
      (signatures .python h.text).map Signature.names =
        [("greet".toList, ["name".toList, "marks".toList, "times".toList])] := by
  intro h
  have hopen : ∀ p ∈ h.parameters, Hides true ',' top (p.default.getD []) := by decide
  exact ⟨hopen, (h.names_signatures_iff (Or.inr (Or.inl rfl)) hopen).2 (by decide)⟩

/-- Parameters are lost behind a default that is a call: the parenthesis that closes the call ends the
list. -/
theorem not_names_signatures : ¬ ∀ language, language = .kotlin ∨ language = .python ∨ language = .swift →
    ∀ h : FunctionHeader language, (h.parameters.map (·.name)).Nodup →
      (language ≠ .python → ∀ p ∈ h.parameters, p.type.isSome) →
        (signatures language h.text).map Signature.names = [h.names] := by
  intro hclaim
  let h : FunctionHeader .kotlin := ⟨['f'],
    [⟨['a'], some "Int".toList, some "g(1)".toList, by decide, by decide, by decide, by decide⟩,
      ⟨['b'], some "Int".toList, none, by decide, by decide, by decide, by decide⟩],
    by decide, by decide⟩
  have hreported := hclaim .kotlin (Or.inl rfl) h (by decide) (fun _ => by decide)
  exact absurd hreported (by decide)

end FunctionHeader

end DryRun
