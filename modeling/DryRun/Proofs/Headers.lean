import DryRun.Signature
import DryRun.Proofs.Openings
import DryRun.Proofs.Pattern.Preferred

/-!
# Where function headers stand

Every language has one form of function headers with a keyword, a name and parameters in parentheses
(`namedHeader`); JavaScript also binds functions to names by `=`.  In front of the parenthesis of a header
there is a word, possibly none, behind one of a few signs (`EndsHeader`), so a text without such a
parenthesis has no headers (`signatures_eq_nil`).
-/

namespace DryRun

open Pattern Cursor Unicode
open Text (beforeLastWord isBlank_append isBlank_reverse lastWord_append lastWord_append_cons trimStart_append)

variable {language : Language} {seen w s t u v z lead name gap rest : Text} {c : Char}
  {g g' : List (Nat × Span)}

/-! ### The forms of headers -/

/-- What a header with a keyword has in front of the name. -/
def Language.headerLead : Language → Pattern
  | .kotlin => wordBoundary ++ exactly "fun" ++ Pattern.gap ++
      optional (Signature.typeParameters ++ blanks) ++
      optional (atLeastOne (fun c => isWord c || c == '.') ++ char '.')
  | .java => wordBoundary ++
      atLeastOne (fun c => isWord c || c == '<' || c == '>' || c == '[' || c == ']') ++ Pattern.gap
  | .python => wordBoundary ++ exactly "def" ++ Pattern.gap
  | .javaScript => wordBoundary ++ exactly "function" ++ optional (char '*') ++ Pattern.gap
  | .swift => wordBoundary ++ exactly "func" ++ Pattern.gap

/-- A header with a keyword, or in Java with the type of the result. -/
def Language.namedHeader (language : Language) : Pattern :=
  (Signature.headers language).headD .empty

/-- A function bound to a name. -/
def boundHeader : Pattern :=
  Signature.boundFunction ++ optional (exactly "function" ++ blanks) ++ Signature.parameterList

/-- A function bound to a name, with one parameter and no parentheses. -/
def arrowHeader : Pattern :=
  Signature.boundFunction ++ group 2 word ++ blanks ++ exactly "=>"

theorem headers_eq (language : Language) : Signature.headers language =
    language.namedHeader ::
      if language = .javaScript then [boundHeader, arrowHeader] else [] := by
  cases language <;> rfl

/-! ### What stands in front of the parenthesis -/

/-- The signs that may stand before the word in front of a header's parenthesis. -/
def Language.isHeaderSign : Language → Char → Bool
  | .kotlin, c => isWord c || c == '>' || c == '.'
  | .java, c => isWord c || c == '<' || c == '>' || c == '[' || c == ']'
  | .python, c => isWord c
  | .javaScript, c => isWord c || c == '*' || c == '='
  | .swift, c => isWord c || c == '>'

/-- Whether the text before a place, nearest character first, ends like a header in front of its
parenthesis: in a word, possibly none, behind such a sign. -/
def Language.EndsHeader (language : Language) (seen : Text) : Prop :=
  ∃ c ∈ (beforeLastWord seen).head?, language.isHeaderSign c

/-- Whether a text is such a header: `lead` up to the sign, white space, the word, white space. -/
def Language.WritesHeader (language : Language) (lead s : Text) : Prop :=
  ∃ y c b name gap, lead = y ++ [c] ∧ s = lead ++ (b ++ (name ++ gap)) ∧ language.isHeaderSign c ∧
    Text.isBlank b ∧ (∀ d ∈ name, isWord d) ∧ Text.isBlank gap ∧ (name = [] ∨ b = [] → isWord c = false)

/-- Whether a text has only word characters, if it has no characters but those and white space. -/
def IsWordAtMost (t : Text) : Prop := (∀ c ∈ t, isWord c ∨ isWhiteSpace c) → ∀ c ∈ t, isWord c

theorem isWordAtMost_of_mem {t : Text} (hc : c ∈ t) (hword : isWord c = false)
    (hws : isWhiteSpace c = false) : IsWordAtMost t := by
  intro h
  have h := h c hc
  simp [hword, hws] at h

theorem isWhiteSpace_of_isHeaderSign (h : language.isHeaderSign c) : isWhiteSpace c = false := by
  cases hws : isWhiteSpace c with
  | false => rfl
  | true =>
    have hall : ∀ d ∈ ['<', '>', '[', ']', '*', '=', '.'], isWhiteSpace d = false := by decide
    have hne : ∀ d ∈ ['<', '>', '[', ']', '*', '=', '.'], c ≠ d := by
      rintro d hd rfl
      rw [hall c hd] at hws
      cases hws
    have hword := isWord_eq_false_of_isWhiteSpace hws
    cases language <;> simp [Language.isHeaderSign, hword, hne] at h

theorem isHeaderSign_of_isWord (language : Language) (h : isWord c) : language.isHeaderSign c := by
  cases language <;> simp [Language.isHeaderSign, h]

theorem Language.WritesHeader.beforeLastWord_eq (h : language.WritesHeader lead s) :
    beforeLastWord (s.reverse ++ seen) = lead.reverse ++ seen := by
  obtain ⟨y, c, b, name, gap, rfl, rfl, hc, hb, hname, hgap, hword⟩ := h
  have hws := isWhiteSpace_of_isHeaderSign hc
  by_cases hne : name = []
  · subst hne
    have hblank : Text.isBlank (b ++ gap) := isBlank_append hb hgap
    have hlast : beforeLastWord ((b ++ gap).reverse ++ c :: (y.reverse ++ seen)) = _ :=
      (lastWord_append_cons hblank hws (hword (Or.inl rfl))).2
    simpa using hlast
  · have hhead : ∀ d ∈ (b.reverse ++ c :: (y.reverse ++ seen)).head?, isWord d = false := by
      by_cases hnil : b = []
      · rw [hnil]
        exact Text.head_of_cons (hword (Or.inr hnil))
      · obtain ⟨d, z, hd⟩ := List.exists_cons_of_ne_nil (List.reverse_ne_nil_iff.2 hnil)
        have hblank := isBlank_reverse hb
        rw [hd] at hblank ⊢
        exact Text.head_of_cons (isWord_eq_false_of_isWhiteSpace (List.all_eq_true.1 hblank d (by simp)))
    have hlast := (lastWord_append hgap hne hname hhead).2
    rw [trimStart_append (isBlank_reverse hb) (Text.head_of_cons hws)] at hlast
    simpa using hlast

theorem Language.WritesHeader.endsHeader (h : language.WritesHeader lead s) :
    language.EndsHeader (s.reverse ++ seen) := by
  rw [EndsHeader, h.beforeLastWord_eq]
  obtain ⟨y, c, -, -, -, rfl, -, hc, -⟩ := h
  exact ⟨c, by simp, hc⟩

theorem not_endsHeader_backslash (z : Text) : ¬ language.EndsHeader ('\\' :: z) := by
  rintro ⟨c, hc, hsign⟩
  have hlast : beforeLastWord ('\\' :: z) = '\\' :: z :=
    (@lastWord_append_cons [] z '\\' rfl (by decide) (by decide)).2
  rw [hlast] at hc
  obtain rfl : '\\' = c := by simpa using hc
  cases language <;> exact absurd hsign (by decide)

/-! ### Headers with a keyword -/

/-- Whether a text is a header's lead and the white space behind it. -/
def Language.LeadsHeader (language : Language) (w : Text) : Prop :=
  ∃ y c b, w = y ++ [c] ++ b ∧ language.isHeaderSign c ∧ Text.isBlank b ∧
    (b = [] → isWord c = false) ∧ IsWordAtMost (y ++ [c])

theorem leadsHeader_of_signs {k b : Text} (hne : k ≠ []) (hk : ∀ c ∈ k, language.isHeaderSign c)
    (hb : b ≠ [] ∧ b.isBlank) : language.LeadsHeader (k ++ b) := by
  obtain ⟨y, c, rfl⟩ : ∃ y c, k = y ++ [c] := ⟨_, _, (List.dropLast_append_getLast hne).symm⟩
  refine ⟨y, c, b, rfl, hk c (by simp), hb.2, fun h => absurd h hb.1, fun h d hd => ?_⟩
  refine (h d hd).resolve_right ?_
  simp [isWhiteSpace_of_isHeaderSign (hk d hd)]

theorem leadsHeader_of_sign (y : Text) {b : Text} (hc : language.isHeaderSign c)
    (hword : isWord c = false) (hb : b.isBlank) : language.LeadsHeader (y ++ c :: b) := by
  exact ⟨y, c, b, by simp, hc, hb, fun _ => hword,
    isWordAtMost_of_mem (c := c) (by simp) hword (isWhiteSpace_of_isHeaderSign hc)⟩

/-- The lead of a header ends with a sign, apart from white space. -/
theorem takes_headerLead (h : Takes language.headerLead seen w rest g g') :
    language.LeadsHeader w := by
  have hkeyword : ∀ {k : String} {seen u w rest g g'}, k.toList ≠ [] → (∀ c ∈ k.toList, isWord c) →
      Takes (wordBoundary ++ exactly k) seen u rest g g' → w ≠ [] ∧ Text.isBlank w →
        language.LeadsHeader (u ++ w) := by
    rintro k seen _ w rest g g' hne hk ⟨_, _, _, rfl, ⟨rfl, -, -⟩, hu⟩ hw
    obtain ⟨rfl, -⟩ := takes_exactly.1 hu
    exact leadsHeader_of_signs hne (fun c hc => isHeaderSign_of_isWord language (hk c hc)) hw
  cases language with
  | kotlin =>
    obtain ⟨_, r, _, rfl, ⟨u, p, _, rfl, ⟨k, b, _, rfl, hk, hb⟩, hp⟩, hr⟩ := h
    rcases hr with ⟨r, _, _, rfl, -, hdot⟩ | ⟨rfl, -⟩
    · -- a receiver ends with its dot
      obtain ⟨rfl, -⟩ := takes_char.1 hdot
      have hlead : Language.kotlin.LeadsHeader ((k ++ b ++ p ++ r) ++ '.' :: []) :=
        leadsHeader_of_sign _ rfl (by decide) rfl
      simpa using hlead
    · rcases hp with ⟨_, b', _, rfl, ⟨p, _, _, rfl, -, hangle⟩, hb'⟩ | ⟨rfl, -⟩
      · obtain ⟨rfl, -⟩ := takes_char.1 hangle
        -- type parameters end with their bracket
        have hlead : Language.kotlin.LeadsHeader ((k ++ b ++ p) ++ '>' :: b') :=
          leadsHeader_of_sign _ rfl (by decide) (takes_blanks.1 hb').1
        simpa using hlead
      · simpa using hkeyword (by decide) (by decide) hk (takes_gap.1 hb).1
  | java =>
    obtain ⟨_, b, _, rfl, ⟨_, k, _, rfl, ⟨rfl, -, -⟩, hk⟩, hb⟩ := h
    obtain ⟨hne, hk⟩ := (takes_atLeastOne.1 hk).1
    exact leadsHeader_of_signs hne hk (takes_gap.1 hb).1
  | python =>
    obtain ⟨k, b, _, rfl, hk, hb⟩ := h
    exact hkeyword (by decide) (by decide) hk (takes_gap.1 hb).1
  | javaScript =>
    obtain ⟨_, b, _, rfl, ⟨k, a, _, rfl, hk, ha⟩, hb⟩ := h
    rcases ha with ha | ⟨rfl, -⟩
    · -- `function*` ends with the star
      obtain ⟨rfl, -⟩ := takes_char.1 ha
      obtain ⟨_, k, _, rfl, ⟨rfl, -, -⟩, hk⟩ := hk
      obtain ⟨rfl, -⟩ := takes_exactly.1 hk
      exact leadsHeader_of_signs (by simp) (by decide) (takes_gap.1 hb).1
    · simpa using hkeyword (by decide) (by decide) hk (takes_gap.1 hb).1
  | swift =>
    obtain ⟨k, b, _, rfl, hk, hb⟩ := h
    exact hkeyword (by decide) (by decide) hk (takes_gap.1 hb).1

/-- A lead, a name and white space are a header up to its parenthesis. -/
theorem Language.LeadsHeader.exists_writesHeader (hw : language.LeadsHeader w) (hne : name ≠ [])
    (hname : ∀ c ∈ name, isWord c) (hgap : gap.isBlank) :
    ∃ lead, language.WritesHeader lead (w ++ (name ++ gap)) ∧ IsWordAtMost lead := by
  obtain ⟨y, c, b, rfl, hc, hb, hword, hall⟩ := hw
  exact ⟨y ++ [c], ⟨y, c, b, name, gap, rfl, by simp, hc, hb, hname, hgap, fun h =>
    hword (h.resolve_left hne)⟩, hall⟩

/-- So is anything that ends in a sign which is no word character. -/
theorem writesHeader_of_sign (y : Text) {b : Text} (hc : language.isHeaderSign c)
    (hword : isWord c = false) (hb : b.isBlank) : language.WritesHeader (y ++ [c]) (y ++ c :: b) :=
  ⟨y, c, b, [], [], rfl, by simp, hc, hb, by simp, rfl, fun _ => hword⟩

theorem takes_parameterList (h : Takes Signature.parameterList seen w rest g g') :
    ∃ t, w = '(' :: t := by
  obtain ⟨t, rfl, -⟩ := takes_char_append.1 (takes_assoc.1 h)
  exact ⟨t, rfl⟩

/-- Behind the lead stands a name, possibly with type parameters, and then the parenthesis. -/
theorem exists_of_takes_namedHeader (h : Takes language.namedHeader seen w rest g g') :
    ∃ lead s t, w = s ++ '(' :: t ∧ language.WritesHeader lead s ∧ IsWordAtMost lead := by
  have hcore : ∀ {seen w rest g g'}, Takes (language.headerLead ++ group 1 word ++ blanks ++
      Signature.parameterList) seen w rest g g' →
        ∃ lead s t, w = s ++ '(' :: t ∧ language.WritesHeader lead s ∧ IsWordAtMost lead := by
    rintro seen w rest g g' ⟨_, _, _, rfl, ⟨_, b, _, rfl, ⟨a, name, _, rfl, ha, _, hname, -⟩, hb⟩, hp⟩
    obtain ⟨t, rfl⟩ := takes_parameterList hp
    obtain ⟨hne, hname⟩ := (takes_word.1 hname).1
    obtain ⟨lead, hlead, hall⟩ := (takes_headerLead ha).exists_writesHeader hne hname (takes_blanks.1 hb).1
    exact ⟨lead, a ++ (name ++ b), t, by simp, hlead, hall⟩
  cases language with
  | kotlin => exact hcore h
  | python => exact hcore h
  | javaScript => exact hcore h
  | java =>
    obtain ⟨_, z, _, rfl, ⟨_, b', _, rfl, ⟨_, thrown, _, rfl, ⟨w, b, _, rfl, h, -⟩, -⟩, -⟩, -⟩ := h
    obtain ⟨lead, s, t, rfl, hlead⟩ := hcore h
    exact ⟨lead, s, t ++ b ++ thrown ++ b' ++ z, by simp, hlead⟩
  | swift =>
    obtain ⟨_, _, _, rfl, ⟨_, b', _, rfl, ⟨_, p, _, rfl, ⟨_, b, _, rfl, ⟨a, name, _, rfl, ha, _, hname, -⟩,
      hb⟩, hangles⟩, hb'⟩, hp⟩ := h
    obtain ⟨t, rfl⟩ := takes_parameterList hp
    have hblank := (takes_blanks.1 hb).1
    have hblank' := (takes_blanks.1 hb').1
    rcases hangles with ⟨p, _, _, rfl, -, hangle⟩ | ⟨rfl, -⟩
    · obtain ⟨rfl, -⟩ := takes_char.1 hangle
      -- with type parameters the bracket stands where a name would
      have hlead : Language.swift.WritesHeader (a ++ (name ++ (b ++ p)) ++ ['>'])
          (a ++ (name ++ (b ++ p)) ++ '>' :: b') := writesHeader_of_sign _ rfl (by decide) hblank'
      exact ⟨_, _, t, by simp, hlead, isWordAtMost_of_mem (c := '>') (by simp) (by decide) (by decide)⟩
    · obtain ⟨hne, hname⟩ := (takes_word.1 hname).1
      have ha : Language.swift.LeadsHeader a := takes_headerLead ha
      obtain ⟨lead, hlead, hall⟩ := ha.exists_writesHeader hne hname (isBlank_append hblank hblank')
      exact ⟨lead, _, t, by simp, hlead, hall⟩

/-- Every header with a keyword has a parenthesis that stands like one of a header. -/
theorem opens_namedHeader (language : Language) : Opens language.EndsHeader language.namedHeader := by
  intro seen w rest g h
  obtain ⟨lead, s, t, rfl, hlead, -⟩ := exists_of_takes_namedHeader h
  exact ⟨s, t, rfl, hlead.endsHeader⟩

/-! ### Functions bound to a name -/

/-- What a function bound to a name has in front of what is bound: letters and white space, the name,
white space and `=`, and possibly `async`. -/
theorem takes_boundFunction (h : Takes Signature.boundFunction seen w rest g g') :
    ∃ z name b a, w = z ++ (name ++ (b ++ '=' :: a)) ∧ (∀ c ∈ z, isWord c ∨ isWhiteSpace c) ∧
      (name ≠ [] ∧ ∀ c ∈ name, isWord c) ∧ Text.isBlank b ∧
      (∃ b' k b'' : Text, a = b' ++ (k ++ b'') ∧ b'.isBlank ∧ b''.isBlank ∧
        (k = [] ∨ k = "async".toList ∧ b'' ≠ [])) ∧
      g' = (1, Span.of (z.reverse ++ seen) name (b ++ '=' :: (a ++ rest))) :: g := by
  have hkeywords : ∀ k ∈ ["const", "let", "var"], ∀ c ∈ k.toList, isWord c := by decide
  rw [Signature.boundFunction] at h
  simp only [takes_assoc] at h
  rw [takes_wordBoundary_append, takes_oneOf_append (by simp)] at h
  obtain ⟨-, k, hk, _, rfl, h1⟩ := h
  obtain ⟨z, _, _, rfl, h2, h3⟩ := takes_append.1 h1
  obtain ⟨⟨-, hz⟩, rfl⟩ := takes_gap.1 h2
  obtain ⟨name, _, _, rfl, h4, h5⟩ := takes_group_append.1 h3
  obtain ⟨hname, rfl⟩ := takes_word.1 h4
  obtain ⟨b, _, hb, rfl, h6⟩ := takes_blanks_append.1 h5
  obtain ⟨_, rfl, h7⟩ := takes_char_append.1 h6
  obtain ⟨b', a, hb', rfl, h8⟩ := takes_blanks_append.1 h7
  have hlead : ∀ c ∈ k.toList ++ z, isWord c ∨ isWhiteSpace c := by
    rw [List.forall_mem_append]
    exact ⟨fun c hc => Or.inl (hkeywords k hk c hc), fun c hc => Or.inr (List.all_eq_true.1 hz c hc)⟩
  rcases h8 with ⟨_, b'', _, rfl, h9, h10⟩ | ⟨rfl, rfl⟩
  · obtain ⟨rfl, rfl⟩ := takes_exactly.1 h9
    obtain ⟨⟨hne, hb''⟩, rfl⟩ := takes_gap.1 h10
    exact ⟨_, name, b, _, by simp, hlead, hname, hb, ⟨b', _, b'', rfl, hb', hb'', Or.inr ⟨rfl, hne⟩⟩,
      by simp⟩
  · exact ⟨_, name, b, b', by simp, hlead, hname, hb, ⟨b', [], [], by simp, hb', rfl, Or.inl rfl⟩,
      by simp⟩

/-- Such a function with parameters in parentheses is a header with an `=` in its lead. -/
theorem exists_of_takes_boundHeader (h : Takes boundHeader seen w rest g g') :
    ∃ lead s t, w = s ++ '(' :: t ∧ Language.javaScript.WritesHeader lead s ∧ '=' ∈ lead := by
  obtain ⟨_, p, _, rfl, ⟨_, f, _, rfl, hbound, h1⟩, hp⟩ := h
  obtain ⟨t, rfl⟩ := takes_parameterList hp
  obtain ⟨z, name, b, _, rfl, -, -, -, ⟨b', k, b'', rfl, hb', hb'', hk⟩, -⟩ := takes_boundFunction hbound
  obtain ⟨n, b₃, rfl, hn, hb₃, hnil⟩ : ∃ n b₃ : Text, f = n ++ b₃ ∧ (∀ c ∈ n, isWord c) ∧ b₃.isBlank ∧
      (n = [] → b₃ = []) := by
    rcases h1 with ⟨_, b₃, _, rfl, h2, h3⟩ | ⟨rfl, -⟩
    · obtain ⟨rfl, -⟩ := takes_exactly.1 h2
      exact ⟨_, b₃, rfl, by decide, (takes_blanks.1 h3).1, fun h => absurd h (by decide)⟩
    · exact ⟨[], [], rfl, by simp, rfl, fun _ => rfl⟩
  have hequals : isWord '=' = false := by decide
  rcases hk with rfl | ⟨rfl, hne⟩
  · exact ⟨_, _, t, by simp, ⟨z ++ (name ++ b), '=', b' ++ b'', n, b₃, rfl, rfl, rfl,
      isBlank_append hb' hb'', hn, hb₃, fun _ => hequals⟩, by simp⟩
  · by_cases hnil' : n = []
    · obtain rfl := hnil'
      obtain rfl := hnil rfl
      exact ⟨_, _, t, by simp, ⟨z ++ (name ++ b), '=', b', "async".toList, b'', rfl, rfl, rfl, hb',
        by decide, hb'', fun _ => hequals⟩, by simp⟩
    · exact ⟨_, _, t, by simp, ⟨z ++ (name ++ (b ++ '=' :: (b' ++ "asyn".toList))), 'c', b'', n, b₃, rfl,
        rfl, rfl, hb'', hn, hb₃, fun h => absurd (h.resolve_left hnil') hne⟩, by simp⟩

/-- A text in which no parenthesis stands like one of a header has no headers, except that JavaScript
has headers without parentheses. -/
theorem signatures_eq_nil {t : Text} (hl : language ≠ .javaScript)
    (ht : NoneOpens language.EndsHeader [] t) : signatures language t = [] := by
  have hnone : language.namedHeader.findAll t = [] := (opens_namedHeader language).findFrom_eq_nil ht
  simp [signatures, headers_eq, hl, hnone]

end DryRun
