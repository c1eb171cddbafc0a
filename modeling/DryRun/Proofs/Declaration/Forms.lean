import DryRun.Proofs.Declaration.Values

/-!
# Forms of declarations

What stands before the value of a declaration: a keyword and white space, except in Python; the name;
possibly a type, in Kotlin and Swift; and `=`.  A declaration in this form is matched as a whole
(`prefers_declaration`).  Conversely whatever a scan takes for a declaration announces itself by such a
form up to the first character of the value (`begins_declaration`), and a search passes over text that
announces nothing (`Quiet`).
-/

namespace DryRun

open Pattern Cursor Unicode

/-! ### The patterns of declarations -/

/-- The pattern of the declarations of a kind. -/
def Language.declaration (language : Language) : ValueKind → Pattern
  | .string => language.declarations.strings
  | .number => language.declarations.numbers
  | .truth => language.declarations.truths

/-- The keywords with which declarations of a kind begin. -/
def Language.declarationKeywords : Language → ValueKind → List String
  | .kotlin, _ => ["val", "var"]
  | .java, .string => ["String", "var"]
  | .java, .number => ["int", "long", "short", "byte", "double", "float", "var"]
  | .java, .truth => ["boolean", "var"]
  | .python, _ => []
  | .javaScript, _ => ["const", "let", "var"]
  | .swift, _ => ["let", "var"]

/-- Whether a declaration may give the type of a name behind it. -/
def Language.mayGiveType : Language → Bool
  | .kotlin | .swift => true
  | .java | .python | .javaScript => false

/-- What the declarations of a kind have in front of the value. -/
def Language.declarationOpening (language : Language) (k : ValueKind) : Pattern :=
  if language = .python then DeclarationSyntax.lineOpening
  else if language.mayGiveType then DeclarationSyntax.typedOpening (language.declarationKeywords k)
  else DeclarationSyntax.keywordOpening (language.declarationKeywords k)

theorem declaration_eq (language : Language) (k : ValueKind) :
    language.declaration k = language.declarationOpening k ++ k.pattern language := by
  cases language <;> cases k <;> rfl

variable {language : Language} {k : ValueKind} {seen u v w r rest t lead name link space : Text}
  {g g' : List (Nat × Span)} {c : Char}

theorem declarationKeywords_ne_nil (hl : language ≠ .python) (k : ValueKind) :
    language.declarationKeywords k ≠ [] := by
  cases language <;> cases k <;> first | exact absurd rfl hl | simp [Language.declarationKeywords]

theorem isLetters_declarationKeywords (language : Language) (k : ValueKind) :
    ∀ s ∈ language.declarationKeywords k, IsLetters s.toList := by
  cases language <;> cases k <;> decide

theorem declarationKeywords_apart (language : Language) (k : ValueKind) :
    ∀ s ∈ language.declarationKeywords k, ∀ s' ∈ language.declarationKeywords k,
      s'.toList <+: s.toList → s' = s := by
  cases language <;> cases k <;> decide

theorem truthWord_notMem_declarationKeywords (language : Language) (k : ValueKind) (value : Bool) :
    language.truthWord value ∉ language.declarationKeywords k := by
  cases language <;> cases k <;> cases value <;> decide

/-! ### Declarations as written -/

/-- Blanks and tabs. -/
def isIndent (c : Char) : Bool := c == ' ' || c == '\t'

theorem isWhiteSpace_of_isIndent (h : isIndent c) : isWhiteSpace c := by
  simp only [isIndent, Bool.or_eq_true, beq_iff_eq] at h
  rcases h with rfl | rfl <;> decide

theorem isBlank_of_isIndent (h : ∀ c ∈ t, isIndent c) : t.isBlank :=
  List.all_eq_true.2 fun c hc => isWhiteSpace_of_isIndent (h c hc)

/-- Whether a character may stand in the name of a type. -/
def isTypeSign (c : Char) : Bool := isWord c || c == '.' || c == '<' || c == '>' || c == '?'

/-- What stands before the name in a declaration: a keyword with blanks behind it, and nothing in
Python. -/
def Language.IsLead (language : Language) (k : ValueKind) (lead : Text) : Prop :=
  if language = .python then lead = []
  else ∃ s ∈ language.declarationKeywords k, ∃ b : Text, b ≠ [] ∧ (∀ c ∈ b, isIndent c) ∧
    lead = s.toList ++ b

/-- What stands between the name and the `=`: blanks, or in some languages a type behind a colon. -/
def Language.IsLink (language : Language) (link : Text) : Prop :=
  (∀ c ∈ link, isIndent c) ∨
    language.mayGiveType ∧ ∃ b b' type b'' : Text, (∀ c ∈ b, isIndent c) ∧ (∀ c ∈ b', isIndent c) ∧
      type ≠ [] ∧ (∀ c ∈ type, isTypeSign c) ∧ (∀ c ∈ b'', isIndent c) ∧
      link = b ++ ':' :: (b' ++ (type ++ b''))

theorem Language.IsLead.forall_mem (h : language.IsLead k lead) :
    ∀ c ∈ lead, c.isAlpha ∨ isIndent c := by
  intro c hc
  unfold IsLead at h
  split at h
  · rw [h] at hc
    cases hc
  · obtain ⟨s, hs, b, -, hb, rfl⟩ := h
    rcases List.mem_append.1 hc with hc | hc
    · exact Or.inl ((isLetters_declarationKeywords language k s hs).2 c hc)
    · exact Or.inr (hb c hc)

theorem Language.IsLink.forall_mem (h : language.IsLink link) :
    ∀ c ∈ link, isIndent c ∨ c = ':' ∨ isTypeSign c := by
  intro c hc
  rcases h with h | ⟨-, b, b', type, b'', hb, hb', -, htype, hb'', rfl⟩
  · exact Or.inl (h c hc)
  · simp only [List.mem_append, List.mem_cons] at hc
    rcases hc with hc | rfl | hc | hc | hc
    · exact Or.inl (hb c hc)
    · exact Or.inr (Or.inl rfl)
    · exact Or.inl (hb' c hc)
    · exact Or.inr (Or.inr (htype c hc))
    · exact Or.inl (hb'' c hc)

/-- The name ends where the link or the `=` begins. -/
theorem Language.IsLink.head (h : language.IsLink link) :
    ∀ c ∈ (link ++ '=' :: t).head?, isWord c = false := by
  have hindent : ∀ {b t : Text}, (∀ c ∈ b, isIndent c) → (∀ c ∈ t.head?, isWord c = false) →
      ∀ c ∈ (b ++ t).head?, isWord c = false := fun hb =>
    Text.head_of_blank_append (isBlank_of_isIndent hb) fun _ => isWord_eq_false_of_isWhiteSpace
  rcases h with h | ⟨-, b, b', type, b'', hb, -, -, -, -, rfl⟩
  · exact hindent h (Text.head_of_cons rfl)
  · rw [List.append_assoc]
    exact hindent hb (Text.head_of_cons rfl)

/-! ### Declarations are matched as a whole -/

theorem prefers_indent (hw : ∀ c ∈ w, isIndent c) (hr : ∀ c ∈ rest.head?, isWhiteSpace c = false) :
    Prefers (many fun c => c == ' ' || c == '\t') seen w rest g g := by
  refine prefers_many hw fun c hc => ?_
  cases h : isIndent c with
  | false => exact h
  | true =>
    have := hr c hc
    rw [isWhiteSpace_of_isIndent h] at this
    cases this

theorem prefers_name (hn : name.isAsciiName) (hr : ∀ c ∈ rest.head?, isWord c = false) :
    Prefers (group 1 word) seen name rest g ((1, Span.of seen name rest) :: g) :=
  (prefers_word (Text.ne_nil_of_isAsciiName hn) (Text.isWord_of_isAsciiName hn) hr).group 1

theorem prefers_equals (hspace : ∀ c ∈ space, isIndent c)
    (hr : ∀ c ∈ rest.head?, isWhiteSpace c = false) :
    Prefers (char '=' ++ blanks) seen ('=' :: space) rest g g :=
  (prefers_char '=').append (v := space) (prefers_blanks (isBlank_of_isIndent hspace) hr)

/-- A possible type is matched up to the white space behind it. -/
theorem exists_prefers_type (rest : Text) (hlink : language.IsLink link) : ∃ type b : Text, link = type ++ b ∧
    (∀ c ∈ b, isIndent c) ∧ ∀ {seen g},
      Prefers (optional (blanks ++ char ':' ++ blanks ++ atLeastOne isTypeSign)) seen type
        (b ++ '=' :: rest) g g := by
  have hcolon : isWhiteSpace ':' = false := by decide
  rcases hlink with h | ⟨-, b, b', type, b'', hb, hb', hne, htype, hb'', rfl⟩
  · -- no type: behind the white space comes `=`, where a type has its colon
    refine ⟨[], link, rfl, h, fun {seen g} => prefers_optional ?_⟩
    have hfails : Fails (blanks ++ char ':') seen (link ++ '=' :: rest) := by
      intro w rest' g g' hr hw
      obtain ⟨b, v, hb, rfl, hv⟩ := takes_blanks_append.1 hw
      obtain ⟨rfl, -⟩ := takes_char.1 hv
      rw [List.append_assoc] at hr
      have h := (Text.blank_unique (isBlank_of_isIndent h) hb (Text.head_of_cons (by decide))
        (Text.head_of_cons hcolon) hr).2
      exact absurd (List.cons_eq_cons.1 h).1 (by decide)
    exact (hfails.append _).append _
  · have htypews : ∀ c, isTypeSign c → isWhiteSpace c = false := by
      intro c hc
      cases hws : isWhiteSpace c with
      | false => rfl
      | true =>
        simp only [isTypeSign, isWord_eq_false_of_isWhiteSpace hws, Bool.or_eq_true, beq_iff_eq,
          Bool.false_eq_true, false_or] at hc
        rcases hc with ((rfl | rfl) | rfl) | rfl <;> exact absurd hws (by decide)
    have hhead : ∀ c ∈ (type ++ (b'' ++ '=' :: rest)).head?, isWhiteSpace c = false := by
      obtain ⟨c, z, rfl⟩ := List.exists_cons_of_ne_nil hne
      exact Text.head_of_cons (htypews c (htype c (by simp)))
    -- the type ends at white space or at `=`
    have hend : ∀ c ∈ (b'' ++ '=' :: rest).head?, isTypeSign c = false := by
      refine Text.head_of_blank_append (isBlank_of_isIndent hb'') (fun c hc => ?_)
        (Text.head_of_cons (by decide))
      cases h : isTypeSign c with
      | false => rfl
      | true =>
        rw [htypews c h] at hc
        cases hc
    refine ⟨b ++ ([':'] ++ (b' ++ type)), b'', by simp, hb'', fun {seen g} => Prefers.alt_left ?_⟩
    have h1 : Prefers blanks seen b (':' :: (b' ++ (type ++ (b'' ++ '=' :: rest)))) g g :=
      prefers_blanks (isBlank_of_isIndent hb) (Text.head_of_cons hcolon)
    have h2 : Prefers blanks ((b ++ [':']).reverse ++ seen) b' (type ++ (b'' ++ '=' :: rest)) g g :=
      prefers_blanks (isBlank_of_isIndent hb') hhead
    have h := h1.append (v := [':']) (prefers_char ':')
    have h' := (h.append h2).append (v := type) (prefers_atLeastOne hne htype hend)
    rwa [List.append_assoc, List.append_assoc] at h'

theorem prefers_keyword {s : String} {b : Text} (hs : s ∈ language.declarationKeywords k)
    (hne : b ≠ []) (hb : ∀ c ∈ b, isIndent c) (hseen : seen.head?.any isWord = false)
    (hr : ∀ c ∈ rest.head?, isWhiteSpace c = false) :
    Prefers (wordBoundary ++ oneOf (language.declarationKeywords k) ++ gap) seen (s.toList ++ b) rest
      g g := by
  have hletters := isLetters_declarationKeywords language k
  have hstart : Prefers wordBoundary seen [] (s.toList ++ (b ++ rest)) g g := by
    obtain ⟨hs, hall⟩ := hletters s hs
    obtain ⟨c, z, hz⟩ := List.exists_cons_of_ne_nil hs
    rw [hz, List.cons_append]
    exact prefers_wordBoundary_of_isWord (isWord_of_isAlpha (hall c (by simp [hz]))) hseen
  have hend : ∀ c ∈ (b ++ rest).head?, c.isAlpha = false := by
    obtain ⟨c, z, rfl⟩ := List.exists_cons_of_ne_nil hne
    exact Text.head_of_cons (isAlpha_eq_false_of_isWhiteSpace (isWhiteSpace_of_isIndent (hb c (by simp))))
  have hword := hstart.append (v := s.toList)
    (prefers_oneOf_letters hs hletters hend (declarationKeywords_apart language k s hs))
  exact hword.append (prefers_gap hne (isBlank_of_isIndent hb) hr)

/-- **What stands before a value is matched up to the value**, with the name as group 1. -/
theorem prefers_opening (hseen : seen.head?.all (· == '\n')) (hlead : language.IsLead k lead)
    (hname : name.isAsciiName) (hlink : language.IsLink link) (hspace : ∀ c ∈ space, isIndent c)
    (hr : ∀ c ∈ rest.head?, isWhiteSpace c = false) :
    Prefers (language.declarationOpening k) seen (lead ++ (name ++ (link ++ '=' :: space))) rest []
      [(1, Span.of (lead.reverse ++ seen) name (link ++ '=' :: (space ++ rest)))] := by
  have hequals : ∀ c ∈ ('=' :: (space ++ rest)).head?, isWhiteSpace c = false :=
    Text.head_of_cons (by decide)
  have hnamews : ∀ c ∈ (name ++ (link ++ '=' :: (space ++ rest))).head?, isWhiteSpace c = false := by
    obtain ⟨c, z, rfl⟩ := List.exists_cons_of_ne_nil (Text.ne_nil_of_isAsciiName hname)
    exact Text.head_of_cons
      (Text.isWhiteSpace_of_isName (Text.isName_of_isAsciiName hname) c (by simp))
  have hgroup : ∀ {g seen}, Prefers (group 1 word) seen name (link ++ '=' :: (space ++ rest)) g
      ((1, Span.of seen name (link ++ '=' :: (space ++ rest))) :: g) := prefers_name hname hlink.head
  unfold Language.IsLead at hlead
  unfold Language.declarationOpening
  split at hlead
  · rename_i hl
    subst hl hlead
    -- in Python the name begins the line
    have hindent : ∀ c ∈ link, isIndent c := hlink.resolve_right fun h => by cases h.1
    have hline : Prefers lineStart seen [] (name ++ (link ++ '=' :: (space ++ rest))) [] [] :=
      prefers_lineStart hseen
    have h1 := hline.append (v := []) (prefers_indent (by simp) hnamews)
    have h2 := (h1.append (v := name) (by simpa using hgroup)).append (v := link)
      (prefers_indent hindent hequals)
    have h3 := (h2.append (v := ['=']) (prefers_char '=')).append (v := space)
      (prefers_indent hspace hr)
    rw [if_pos rfl, DeclarationSyntax.lineOpening]
    simpa using h3
  · rename_i hl
    -- elsewhere the keyword `s` and the white space `b` stand in front of it
    obtain ⟨s, hs, b, hne, hb, rfl⟩ := hlead
    have hapart : seen.head?.any isWord = false := by
      cases seen with
      | nil => rfl
      | cons c seen =>
        obtain rfl : c = '\n' := by simpa using hseen
        rfl
    have h1 := (prefers_keyword (g := []) hs hne hb hapart hnamews).append hgroup
    rw [if_neg hl]
    split
    · obtain ⟨type, b', rfl, hb', htype⟩ := exists_prefers_type (space ++ rest) hlink
      rw [List.append_assoc type] at h1
      have h := (h1.append htype).append (prefers_blanks (isBlank_of_isIndent hb') hequals)
      have h' := h.append (prefers_equals hspace hr)
      simp only [prefers_assoc] at h'
      simp only [DeclarationSyntax.typedOpening, prefers_assoc, List.append_assoc] at h' ⊢
      exact h'
    · rename_i ht
      have hindent : ∀ c ∈ link, isIndent c := hlink.resolve_right fun h => ht h.1
      have h := (h1.append (prefers_blanks (isBlank_of_isIndent hindent) hequals)).append
        (prefers_equals hspace hr)
      simp only [DeclarationSyntax.keywordOpening, prefers_assoc, List.append_assoc] at h ⊢
      exact h

/-! ### How declarations announce themselves -/

/-- What stands before the `=` of a declaration. -/
def Language.declarationHead (language : Language) (k : ValueKind) : Pattern :=
  if language = .python then lineStart ++ many isIndent ++ group 1 word ++ many isIndent
  else if language.mayGiveType then
    wordBoundary ++ oneOf (language.declarationKeywords k) ++ gap ++ group 1 word ++
      optional (blanks ++ char ':' ++ blanks ++ atLeastOne isTypeSign) ++ blanks
  else
    wordBoundary ++ oneOf (language.declarationKeywords k) ++ gap ++ group 1 word ++ blanks

/-- Whether a character may stand before the `=` of a declaration. -/
def Language.isHeadSign (language : Language) (c : Char) : Bool :=
  if language = .python then isAssigned c else isWhiteSpace c || isTypeSign c || c == ':'

/-- What a declaration begins with: a keyword of its kind and white space, and in Python a line. -/
def Language.Introduces (language : Language) (k : ValueKind) (seen u : Text) : Prop :=
  if language = .python then seen.head?.all (· == '\n') ∧ u = []
  else seen.head?.any isWord = false ∧
    ∃ s ∈ language.declarationKeywords k, ∃ c, isWhiteSpace c ∧ u = s.toList ++ [c]

/-- How a declaration of a kind announces itself: what it begins with, more in front of the `=`, and
the first character of a value of the kind. -/
def Language.Announces (language : Language) (k : ValueKind) (seen t : Text) : Prop :=
  ∃ (u v space : Text) (c : Char), t = u ++ v ++ '=' :: (space ++ [c]) ∧ language.Introduces k seen u ∧
    (∀ d ∈ u ++ v, language.isHeadSign d) ∧ space.isBlank ∧ ValueKind.ofInitial? c = some k

theorem takesOnly_declarationHead (language : Language) (k : ValueKind) :
    TakesOnly (language.isHeadSign ·) (language.declarationHead k) := by
  unfold Language.declarationHead Language.isHeadSign
  split
  · have hword : ∀ c, isWord c → isAssigned c := fun c hc => by simp [isAssigned, hc]
    have hindent : ∀ c, isIndent c → isAssigned c := by
      intro c hc
      simp only [isIndent, Bool.or_eq_true] at hc
      rcases hc with hc | hc <;> simp [isAssigned, hc]
    exact ⟨⟨⟨trivial, hindent⟩, hword, hword⟩, hindent⟩
  · have hspace : ∀ c, isWhiteSpace c → isWhiteSpace c || isTypeSign c || c == ':' :=
      fun c hc => by simp [hc]
    have htype : ∀ c, isTypeSign c → isWhiteSpace c || isTypeSign c || c == ':' :=
      fun c hc => by simp [hc]
    have hcolon : ∀ c, (c == ':') → isWhiteSpace c || isTypeSign c || c == ':' :=
      fun c hc => by simp [hc]
    have hword : ∀ c, isWord c → isWhiteSpace c || isTypeSign c || c == ':' :=
      fun c hc => htype c (by simp [isTypeSign, hc])
    have hkeyword := takesOnly_oneOf (l := language.declarationKeywords k) fun s hs c hc =>
      hword c (isWord_of_isAlpha ((isLetters_declarationKeywords language k s hs).2 c hc))
    split
    · exact ⟨⟨⟨⟨⟨trivial, hkeyword⟩, hspace, hspace⟩, hword, hword⟩,
        ⟨⟨⟨hspace, hcolon⟩, hspace⟩, htype, htype⟩, trivial⟩, hspace⟩
    · exact ⟨⟨⟨⟨trivial, hkeyword⟩, hspace, hspace⟩, hword, hword⟩, hspace⟩

theorem begins_declarationHead (language : Language) (k : ValueKind) :
    Begins (language.Introduces k) (language.declarationHead k) := by
  unfold Language.declarationHead Language.Introduces
  split
  · rename_i hl
    have h : Begins (fun seen u => seen.head?.all (· == '\n') ∧ u = []) lineStart := by
      rintro seen w rest g g' ⟨rfl, h, -⟩
      exact ⟨[], [], rfl, h, rfl⟩
    exact ((h.append _).append _).append _
  · rename_i hl
    have h : Begins (fun seen u => seen.head?.any isWord = false ∧
        ∃ s ∈ language.declarationKeywords k, ∃ c, isWhiteSpace c ∧ u = s.toList ++ [c])
        (wordBoundary ++ oneOf (language.declarationKeywords k) ++ gap) := by
      intro seen w rest g g' h
      rw [takes_assoc, takes_wordBoundary_append,
        takes_oneOf_append (declarationKeywords_ne_nil hl k)] at h
      obtain ⟨hb, s, hs, v, rfl, h⟩ := h
      obtain ⟨_, z, _, rfl, ⟨⟨c, hc, rfl⟩, -⟩, -⟩ := takes_append.1 h
      -- the keyword and the first character behind it announce the declaration
      refine ⟨s.toList ++ [c], z, by simp, ?_, s, hs, c, hc, rfl⟩
      obtain ⟨hne, hall⟩ := isLetters_declarationKeywords language k s hs
      obtain ⟨d, y, hd⟩ := List.exists_cons_of_ne_nil hne
      rw [hd] at hb
      rw [List.cons_append, List.cons_append,
        atWordBoundary_of_isWord (isWord_of_isAlpha (hall d (by simp [hd])))] at hb
      simpa using hb
    split
    · exact ((h.append _).append _).append _
    · exact (h.append _).append _

/-- **What a scan takes for a declaration announces itself.** -/
theorem begins_declaration (language : Language) (k : ValueKind) :
    Begins (language.Announces k) (language.declaration k) := by
  intro seen w rest g g' h
  have hopening : ∃ tail, (∀ {seen w rest g g'}, Takes tail seen w rest g g' → w.isBlank) ∧
      language.declarationOpening k = language.declarationHead k ++ char '=' ++ tail := by
    unfold Language.declarationOpening Language.declarationHead
    split
    · exact ⟨many isIndent, fun h => isBlank_of_isIndent h.1, rfl⟩
    · split
      · exact ⟨blanks, fun h => (takes_blanks.1 h).1, rfl⟩
      · exact ⟨blanks, fun h => (takes_blanks.1 h).1, rfl⟩
  obtain ⟨tail, htail, hopening⟩ := hopening
  rw [declaration_eq, hopening] at h
  obtain ⟨_, z, _, rfl, ⟨_, space, _, rfl, ⟨x, _, _, rfl, hx, heq⟩, hspace⟩, hz⟩ := h
  obtain ⟨rfl, -⟩ := takes_char.1 heq
  obtain ⟨c, z, rfl, hc⟩ := exists_initial_of_takes hz
  obtain ⟨u, v, rfl, hu⟩ := begins_declarationHead language k _ _ _ _ _ hx
  exact ⟨u ++ v ++ '=' :: (space ++ [c]), z, by simp, u, v, space, c, rfl, hu,
    forall_mem_of_takes (takesOnly_declarationHead language k) hx, htail hspace, hc⟩

/-! ### Text that announces nothing -/

theorem isHeadSign_equals (language : Language) : language.isHeadSign '=' = false := by
  cases language <;> decide

/-- Text without `=` announces nothing, if what follows cannot stand before one. -/
theorem quiet_of_notMem (hu : '=' ∉ u)
    (hr : ∀ c ∈ r.head?, c ≠ '=' ∧ language.isHeadSign c = false) :
    Quiet (language.Announces k) seen u r := by
  rintro u₁ u₂ rfl - x y h ⟨z, v, space, c, rfl, -, hhead, -, -⟩
  have hu₂ : '=' ∉ u₂ := fun he => hu (List.mem_append_right u₁ he)
  rw [List.append_assoc, List.cons_append] at h
  cases r with
  | nil =>
    rw [List.append_nil] at h
    exact hu₂ (by simp [h])
  | cons d r =>
    obtain ⟨hne, hd⟩ := hr d (by simp)
    exact Text.append_ne_append_of_notMem hd hne hu₂ hhead h

/-- Nothing announces a kind of values in front of a value of another kind. -/
theorem quiet_head (hhead : '=' ∉ u) (hspace : Text.isBlank space)
    (hc : isWhiteSpace c = false) (hk : ValueKind.ofInitial? c ≠ some k) :
    Quiet (language.Announces k) seen (u ++ ['=']) (space ++ c :: t) := by
  rintro u₁ u₂ hu hne x y h ⟨z, v, space', c', rfl, -, hhead', hspace', hk'⟩
  obtain ⟨s, rfl⟩ : ∃ s, u₂ = s ++ ['='] := by
    obtain ⟨s, d, rfl⟩ : ∃ s d, u₂ = s ++ [d] := ⟨_, _, (List.dropLast_append_getLast hne).symm⟩
    rw [← List.append_assoc] at hu
    obtain ⟨-, hd⟩ := List.append_inj' hu rfl
    exact ⟨s, by rw [hd]⟩
  have hs : '=' ∉ s := by
    intro he
    rw [← List.append_assoc] at hu
    exact hhead (by rw [(List.append_inj' hu rfl).1]; exact List.mem_append_right u₁ he)
  have hzv : '=' ∉ z ++ v := fun he => by
    have := hhead' _ he
    rw [isHeadSign_equals] at this
    cases this
  have hne' : ∀ {s : Text}, '=' ∉ s → ∀ d ∈ s, (d != '=') = true := by
    intro s hs d hd
    rw [bne_iff_ne]
    rintro rfl
    exact hs hd
  have hkind' : isWhiteSpace c' = false := isWhiteSpace_of_ofInitial? hk'
  simp only [List.append_assoc, List.cons_append, List.nil_append] at h
  rw [← List.append_assoc z] at h
  -- both readings have the same `=`, so the same character begins the value
  obtain ⟨-, h1⟩ := Text.span_unique (hne' hs) (hne' hzv) (Text.head_of_cons (by simp))
    (Text.head_of_cons (by simp)) h
  obtain ⟨-, h2⟩ := Text.blank_unique hspace hspace' (Text.head_of_cons hc)
    (Text.head_of_cons hkind') (List.cons_eq_cons.1 h1).2
  obtain rfl := (List.cons_eq_cons.1 h2).1
  exact hk hk'

/-- Except in Python a declaration begins with a letter. -/
theorem quiet_of_not_isAlpha (hl : language ≠ .python) (hu : ∀ c ∈ u, c.isAlpha = false) :
    Quiet (language.Announces k) seen u r := by
  rintro u₁ u₂ rfl hne x y h ⟨z, v, space, c, rfl, hz, -⟩
  unfold Language.Introduces at hz
  rw [if_neg hl] at hz
  obtain ⟨-, s, hs, d, -, rfl⟩ := hz
  obtain ⟨hs, hall⟩ := isLetters_declarationKeywords language k s hs
  obtain ⟨b, s', hb⟩ := List.exists_cons_of_ne_nil hs
  obtain ⟨a, u₂, rfl⟩ := List.exists_cons_of_ne_nil hne
  rw [hb] at h
  obtain ⟨rfl, -⟩ := List.cons_eq_cons.1 h
  have h1 := hall a (by simp [hb])
  rw [hu a (by simp)] at h1
  cases h1

/-- A word that is no keyword announces nothing. -/
theorem quiet_word (hl : language ≠ .python) (hu : IsLetters u)
    (hkey : ∀ s ∈ language.declarationKeywords k, s.toList ≠ u)
    (hr : ∀ c ∈ r.head?, c.isAlpha = false) : Quiet (language.Announces k) seen u r := by
  rintro u₁ u₂ rfl hne x y h ⟨z, v, space, c, rfl, hz, -⟩
  unfold Language.Introduces at hz
  rw [if_neg hl] at hz
  obtain ⟨hapart, s, hs, d, hd, rfl⟩ := hz
  by_cases hu₁ : u₁ = []
  · subst hu₁
    have hletters := isLetters_declarationKeywords language k s hs
    have h' : u₂ ++ r = s.toList ++ (d :: (v ++ '=' :: (space ++ c :: y))) := by simpa using h
    exact hkey s hs (Text.span_unique hletters.2 hu.2
      (Text.head_of_cons (isAlpha_eq_false_of_isWhiteSpace hd)) hr h'.symm).1
  · -- in the middle of the word no other one begins
    obtain ⟨u, b, rfl⟩ : ∃ u b, u₁ = u ++ [b] := ⟨_, _, (List.dropLast_append_getLast hu₁).symm⟩
    have hb := isWord_of_isAlpha (hu.2 b (by simp))
    simp [hb] at hapart

/-- In Python a declaration begins a line. -/
theorem quiet_of_not_lineStart (hu : '\n' ∉ u) (hseen : seen.head?.all (· == '\n') = false) :
    Quiet (Language.python.Announces k) seen u r := by
  rintro u₁ u₂ rfl - x y - ⟨z, v, space, c, -, ⟨hline, -⟩, -⟩
  cases h : u₁.reverse with
  | nil =>
    rw [h, List.nil_append, hseen] at hline
    cases hline
  | cons b t =>
    rw [h] at hline
    obtain rfl : b = '\n' := by simpa using hline
    have hb : '\n' ∈ u₁ := by
      rw [← List.mem_reverse, h]
      exact List.mem_cons_self
    exact hu (List.mem_append_left u₂ hb)

end DryRun
