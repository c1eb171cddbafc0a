import DryRun.Declaration
import DryRun.Proofs.Declaration.Extent
import DryRun.Proofs.Numeral
import DryRun.Proofs.Pattern.Preferred

/-!
# Values in declarations

A declaration gives a name a literal in double quotes, a numeral, or a word for truth or falsehood,
each kind by a pattern of its own.  The pattern of a value's kind reads the value as a whole
(`prefers_value`), and what it reads in a text is told from the other kinds by the first character
(`exists_initial_of_takes`).
-/

namespace DryRun

open Pattern Cursor Unicode

/-- The kinds of values in declarations. -/
inductive ValueKind where
  | string | number | truth
deriving DecidableEq, Repr

/-- A value in a declaration. -/
inductive DeclaredValue where
  /-- A literal in double quotes. -/
  | string (body : Text)
  | number (numeral : Text)
  | truth (value : Bool)
deriving DecidableEq, Repr

/-- The word for truth or for falsehood. -/
def Language.truthWord : Language → Bool → String
  | .python, true => "True"
  | .python, false => "False"
  | _, true => "true"
  | _, false => "false"

namespace DeclaredValue

def kind : DeclaredValue → ValueKind
  | string _ => .string
  | number _ => .number
  | truth _ => .truth

/-- The value as a declaration writes it. -/
def written (language : Language) : DeclaredValue → Text
  | string body => '"' :: (body ++ ['"'])
  | number numeral => numeral
  | truth value => (language.truthWord value).toList

/-- What is read of a written value. -/
def read (language : Language) : DeclaredValue → Text
  | string body => body
  | number numeral => numeral
  | truth value => (language.truthWord value).toList

/-- The value that a name is bound to. -/
def bound : DeclaredValue → Text
  | string body => body
  | number numeral => numeral
  | truth true => "true".toList
  | truth false => "false".toList

/-- Whether a value can be written: a literal ends with its quote, and a number is a numeral. -/
def IsWritable : DeclaredValue → Prop
  | string body => '"' ∉ body ∧ '\n' ∉ body
  | number numeral => numeral.isNumeral
  | truth _ => True

instance : (v : DeclaredValue) → Decidable v.IsWritable
  | string body => inferInstanceAs (Decidable ('"' ∉ body ∧ '\n' ∉ body))
  | number numeral => inferInstanceAs (Decidable (numeral.isNumeral = true))
  | truth _ => inferInstanceAs (Decidable True)

theorem toLower_read (language : Language) {v : DeclaredValue} (h : v.kind = .truth) :
    Text.toLower (v.read language) = v.bound := by
  cases v with
  | string body => cases h
  | number numeral => cases h
  | truth value => cases language <;> cases value <;> decide

theorem read_of_ne (language : Language) {v : DeclaredValue} (h : v.kind ≠ .truth) :
    v.read language = v.bound := by
  cases v with
  | string body => rfl
  | number numeral => rfl
  | truth value => exact absurd rfl h

end DeclaredValue

/-! ### The patterns of values -/

/-- The words for truth and falsehood. -/
def Language.truthWords (language : Language) : List String :=
  [language.truthWord true, language.truthWord false]

/-- Whether a declaration may have a literal in single quotes as well. -/
def Language.takesSingleQuotes : Language → Bool
  | .python | .javaScript => true
  | .kotlin | .java | .swift => false

/-- The pattern of a kind of values. -/
def ValueKind.pattern (language : Language) : ValueKind → Pattern
  | string => DeclarationSyntax.stringValue language.takesSingleQuotes
  | number => DeclarationSyntax.numberValue
  | truth => DeclarationSyntax.truthValue language.truthWords

/-- The kind of values that begin with a character. -/
def ValueKind.ofInitial? (c : Char) : Option ValueKind :=
  if c = '"' ∨ c = '\'' then some string
  else if c = '-' ∨ isDecimalDigit c then some number
  else if c.isAlpha then some truth
  else none

variable {language : Language} {k : ValueKind} {seen w rest t : Text} {g g' : List (Nat × Span)}
  {c : Char}

theorem ofInitial?_of_isWhiteSpace (h : isWhiteSpace c) : ValueKind.ofInitial? c = none := by
  have hdigit : isDecimalDigit c = false := isDecimalDigit_of_isWhiteSpace h
  have hne : ∀ d, isWhiteSpace d = false → c ≠ d := by
    rintro d hd rfl
    rw [hd] at h
    cases h
  simp [ValueKind.ofInitial?, hdigit, hne '"' (by decide), hne '\'' (by decide),
    hne '-' (by decide), isAlpha_eq_false_of_isWhiteSpace h]

theorem isWhiteSpace_of_ofInitial? (h : ValueKind.ofInitial? c = some k) : isWhiteSpace c = false := by
  cases hws : isWhiteSpace c with
  | false => rfl
  | true =>
    rw [ofInitial?_of_isWhiteSpace hws] at h
    cases h

theorem isLetters_truthWord (language : Language) (value : Bool) :
    IsLetters (language.truthWord value).toList := by
  cases language <;> cases value <;> decide

theorem exists_initial_of_takes (h : Takes (k.pattern language) seen w rest g g') :
    ∃ c z, w = c :: z ∧ ValueKind.ofInitial? c = some k := by
  cases k with
  | string =>
    have hquoted : ∀ q n, Takes (DeclarationSyntax.quoted q n) seen w rest g g' →
        ∃ z, w = q :: z := by
      intro q n h
      obtain ⟨z, rfl, -⟩ := takes_char_append.1 (takes_assoc.1 h)
      exact ⟨z, rfl⟩
    have hcases : (∃ z, w = '"' :: z) ∨ ∃ z, w = '\'' :: z := by
      simp only [ValueKind.pattern, DeclarationSyntax.stringValue] at h
      split at h
      · exact Or.imp (hquoted _ _) (hquoted _ _) h
      · exact Or.inl (hquoted _ _ h)
    rcases hcases with ⟨z, rfl⟩ | ⟨z, rfl⟩
    · exact ⟨_, z, rfl, rfl⟩
    · exact ⟨_, z, rfl, rfl⟩
  | number =>
    obtain ⟨h', hw, -⟩ := h
    obtain ⟨sign, v, h'', rfl, hsign, hv⟩ := takes_append.1 (takes_assoc.1 hw)
    rcases hsign with hsign | hsign
    · obtain ⟨rfl, -⟩ := takes_char.1 hsign
      exact ⟨'-', v, rfl, rfl⟩
    · obtain ⟨rfl, -⟩ := hsign
      -- without a sign a digit comes first
      obtain ⟨_, z, _, rfl, ⟨_, _, _, rfl, ⟨⟨c, hc, rfl⟩, -⟩, -⟩, -⟩ := takes_append.1 hv
      have hquote : ¬ (c = '"' ∨ c = '\'') := by
        rintro (rfl | rfl) <;> exact absurd hc (by decide)
      refine ⟨c, _, rfl, ?_⟩
      rw [ValueKind.ofInitial?, if_neg hquote, if_pos (Or.inr hc)]
  | truth =>
    obtain ⟨_, v, _, rfl, ⟨_, hw, -⟩, -⟩ := takes_append.1 h
    obtain ⟨⟨s, hs, rfl⟩, -⟩ := (takes_oneOf (by simp [Language.truthWords])).1 hw
    have hall : ∀ s ∈ language.truthWords,
        s.toList.head?.bind ValueKind.ofInitial? = some .truth := by
      cases language <;> decide
    obtain ⟨c, hc, hinitial⟩ := Option.bind_eq_some_iff.1 (hall s hs)
    obtain ⟨z, hz⟩ := List.head?_eq_some_iff.1 hc
    exact ⟨c, z ++ v, by rw [hz]; rfl, hinitial⟩

/-! ### Digits -/

theorem isAlpha_eq_false_of_isDigit (h : c.isDigit) : c.isAlpha = false := by
  show (decide ('A'.val ≤ c.val ∧ c.val ≤ 'Z'.val) ||
    decide ('a'.val ≤ c.val) && decide (c.val ≤ 'z'.val)) = false
  simp only [Char.isDigit, Bool.and_eq_true, decide_eq_true_eq, UInt32.le_iff_toNat_le] at h
  simp only [Bool.or_eq_false_iff, Bool.and_eq_false_iff, decide_eq_false_iff_not,
    UInt32.le_iff_toNat_le]
  have h9 : '9'.val.toNat = 57 := rfl
  have hA : 'A'.val.toNat = 65 := rfl
  have ha : 'a'.val.toNat = 97 := rfl
  omega

theorem isDecimalDigit_of_isDigit (h : c.isDigit) : isDecimalDigit c := by
  simp [isDecimalDigit, h]

/-! ### Values are read as a whole -/

/-- Whether a value may end in front of a text: at the end of the text, or where a semicolon or white
space comes next. -/
def EndsValue (t : Text) : Prop := ∀ c ∈ t.head?, c = ';' ∨ isWhiteSpace c

theorem EndsValue.head {p : Char → Bool} (h : EndsValue t) (hp : p ';' = false)
    (hw : ∀ c, isWhiteSpace c → p c = false) : ∀ c ∈ t.head?, p c = false := by
  intro c hc
  rcases h c hc with rfl | hc
  · exact hp
  · exact hw c hc

/-- How the pattern for numerals cuts a text: it reads a possible sign, digits, and a point with digits
if there is one, and leaves `rest`.  Digits of all scripts count. -/
structure ReadsNumber (sign whole fraction rest : Text) : Prop where
  sign : sign = [] ∨ sign = ['-']
  ne_nil : whole ≠ []
  digits : ∀ c ∈ whole, isDecimalDigit c
  ends : ∀ c ∈ (fraction ++ rest).head?, isDecimalDigit c = false
  fraction : (fraction = [] ∧ ∀ c r, rest = '.' :: c :: r → isDecimalDigit c = false) ∨
    ∃ digits, digits ≠ [] ∧ fraction = '.' :: digits ∧ (∀ c ∈ digits, isDecimalDigit c) ∧
      ∀ c ∈ rest.head?, isDecimalDigit c = false

/-- **A number is read as far as it goes.** -/
theorem ReadsNumber.prefers {sign whole fraction : Text} (h : ReadsNumber sign whole fraction rest) :
    Prefers DeclarationSyntax.numberValue seen (sign ++ (whole ++ fraction)) rest g
      ((2, Span.of seen (sign ++ (whole ++ fraction)) rest) :: g) := by
  have hsign : Prefers (optional (char '-')) seen sign (whole ++ (fraction ++ rest)) g g := by
    rcases h.sign with rfl | rfl
    · -- the digits do not begin with a sign
      refine prefers_optional (fails_char ?_)
      obtain ⟨c, z, hz⟩ := List.exists_cons_of_ne_nil h.ne_nil
      intro hc
      obtain rfl : c = '-' := by simpa [hz] using hc
      exact absurd (h.digits '-' (by simp [hz])) (by decide)
    · exact Prefers.alt_left (prefers_char '-')
  have hwhole : Prefers (atLeastOne isDecimalDigit) (sign.reverse ++ seen) whole (fraction ++ rest) g
      g := prefers_atLeastOne h.ne_nil h.digits h.ends
  have hfraction : Prefers (optional (char '.' ++ atLeastOne isDecimalDigit))
      ((sign ++ whole).reverse ++ seen) fraction rest g g := by
    rcases h.fraction with ⟨rfl, hpoint⟩ | ⟨digits, hne, rfl, hdigits, hend⟩
    · -- a point that no digit follows is left
      refine prefers_optional ?_
      intro w r g g' hr hw
      obtain ⟨_, v, _, rfl, hdot, hv⟩ := takes_append.1 hw
      obtain ⟨rfl, -⟩ := takes_char.1 hdot
      obtain ⟨_, z, _, rfl, ⟨⟨c, hc, rfl⟩, -⟩, -⟩ := takes_append.1 hv
      rw [hpoint c (z ++ r) hr] at hc
      cases hc
    · exact Prefers.alt_left ((prefers_char '.').append (prefers_atLeastOne hne hdigits hend))
  have h := (hsign.append (by simpa using hwhole)).append (v := fraction) hfraction
  rw [List.append_assoc] at h
  exact h.group 2

/-- Where a number begins, it is cut in this way. -/
theorem exists_readsNumber {c : Char} {sign z : Text} (hsign : sign = [] ∨ sign = ['-'])
    (hc : isDecimalDigit c) : ∃ whole fraction rest,
      sign ++ c :: z = sign ++ (whole ++ fraction) ++ rest ∧
        ReadsNumber sign whole fraction rest := by
  obtain ⟨whole, v, hz, hwhole, hv⟩ := Text.exists_span isDecimalDigit (c :: z)
  have hne : whole ≠ [] := by
    rintro rfl
    obtain rfl : c :: z = v := hz
    rw [hv c (by simp)] at hc
    cases hc
  -- a point belongs to the number only if a digit follows
  by_cases hpoint : ∃ d r, v = '.' :: d :: r ∧ isDecimalDigit d
  · obtain ⟨d, r, rfl, hd⟩ := hpoint
    obtain ⟨digits, rest, hr, hdigits, hrest⟩ := Text.exists_span isDecimalDigit (d :: r)
    refine ⟨whole, '.' :: digits, rest, by simp [hz, hr], hsign, hne, hwhole,
      Text.head_of_cons rfl, Or.inr ⟨digits, ?_, rfl, hdigits, hrest⟩⟩
    rintro rfl
    obtain rfl : d :: r = rest := hr
    rw [hrest d (by simp)] at hd
    cases hd
  · refine ⟨whole, [], v, by simp [hz], hsign, hne, hwhole, hv, Or.inl ⟨rfl, fun d r hv => ?_⟩⟩
    exact Bool.eq_false_iff.2 fun hd => hpoint ⟨d, r, hv, hd⟩

/-- What the pattern for numerals prefers is a number that goes as far as it can. -/
theorem readsNumber_of_prefers (h : Prefers DeclarationSyntax.numberValue seen w rest g g') :
    ∃ sign whole fraction, w = sign ++ (whole ++ fraction) ∧ ReadsNumber sign whole fraction rest ∧
      g' = (2, Span.of seen w rest) :: g := by
  obtain ⟨_, hw, -⟩ := h.takes
  obtain ⟨sign, v, g'', rfl, hoptional, hv⟩ := takes_append.1 (takes_assoc.1 hw)
  have hsign : sign = [] ∨ sign = ['-'] := by
    rcases hoptional with hminus | hnone
    · exact Or.inr (takes_char.1 hminus).1
    · exact Or.inl hnone.1
  obtain ⟨_, z, _, rfl, ⟨_, y, _, rfl, ⟨⟨c, hc, rfl⟩, -⟩, -⟩, -⟩ := takes_append.1 hv
  obtain ⟨whole, fraction, rest', hcut, hreads⟩ := exists_readsNumber (z := y ++ z ++ rest) hsign hc
  obtain ⟨hw, rfl, rfl⟩ := h.unique hreads.prefers (by simpa using hcut)
  exact ⟨sign, whole, fraction, hw, hreads, by rw [hw]⟩

theorem prefers_numberValue (hw : w.isNumeral) (hr : EndsValue rest) :
    Prefers DeclarationSyntax.numberValue seen w rest g ((2, Span.of seen w rest) :: g) := by
  have hrest : ∀ c ∈ rest.head?, isDecimalDigit c = false :=
    hr.head (by decide) fun _ => isDecimalDigit_of_isWhiteSpace
  obtain ⟨sign, whole, fraction, rfl, hsign, hwhole, hfraction⟩ := exists_parts_of_isNumeral hw
  refine ReadsNumber.prefers ⟨hsign, hwhole.1, fun c hc => isDecimalDigit_of_isDigit (hwhole.2 c hc),
    ?_, ?_⟩
  · rcases hfraction with rfl | ⟨digits, rfl, -⟩
    · exact hrest
    · exact Text.head_of_cons rfl
  · rcases hfraction with rfl | ⟨digits, rfl, hdigits⟩
    · refine Or.inl ⟨rfl, ?_⟩
      rintro c r rfl
      exact absurd (hr '.' (by simp)) (by decide)
    · exact Or.inr ⟨digits, hdigits.1, rfl, fun c hc => isDecimalDigit_of_isDigit (hdigits.2 c hc),
        hrest⟩

/-- **The pattern of a value's kind reads the value as a whole.** -/
theorem prefers_value (language : Language) (seen : Text) (g : List (Nat × Span)) {v : DeclaredValue}
    (hv : v.IsWritable) (ht : EndsValue t) :
    ∃ s : Span, s.text = v.read language ∧
      Prefers (v.kind.pattern language) seen (v.written language) t g ((2, s) :: g) := by
  cases v with
  | string body =>
    have hbody : ∀ c ∈ body, isWithinQuotes '"' c := by
      intro c hc
      have hq : c ≠ '"' := fun h => hv.1 (h ▸ hc)
      have hn : c ≠ '\n' := fun h => hv.2 (h ▸ hc)
      simp [isWithinQuotes, hq, hn]
    have hquoted : Prefers (DeclarationSyntax.quoted '"' 2) seen ('"' :: (body ++ ['"'])) t g
        ((2, Span.of ('"' :: seen) body ('"' :: t)) :: g) :=
      ((prefers_char '"').append (v := body)
        ((prefers_many hbody (Text.head_of_cons rfl)).group 2)).append (v := ['"']) (prefers_char '"')
    refine ⟨_, Span.text_of ('"' :: seen) body ('"' :: t), ?_⟩
    show Prefers (DeclarationSyntax.stringValue language.takesSingleQuotes) _ _ _ _ _
    cases language.takesSingleQuotes with
    | true => exact Prefers.alt_left hquoted
    | false => exact hquoted
  | number numeral =>
    exact ⟨_, Span.text_of seen numeral t, prefers_numberValue hv ht⟩
  | truth value =>
    refine ⟨_, Span.text_of seen (language.truthWord value).toList t, ?_⟩
    have hmem : language.truthWord value ∈ language.truthWords := by
      cases value <;> simp [Language.truthWords]
    have hall : ∀ s ∈ language.truthWords, IsLetters s.toList := by
      cases language <;> decide
    -- neither word begins the other one
    have hapart : ∀ s ∈ language.truthWords, ∀ s' ∈ language.truthWords,
        s'.toList <+: s.toList → s' = s := by
      cases language <;> decide
    have hword : Prefers (oneOf language.truthWords) seen (language.truthWord value).toList t g
        g :=
      prefers_oneOf_letters hmem hall
        (ht.head (by decide) fun _ => isAlpha_eq_false_of_isWhiteSpace) (hapart _ hmem)
    have hend : Prefers wordBoundary ((language.truthWord value).toList.reverse ++ seen) [] t
        ((2, Span.of seen (language.truthWord value).toList t) :: g)
        ((2, Span.of seen (language.truthWord value).toList t) :: g) := by
      refine prefers_wordBoundary ?_
      have ht : t.head?.any isWord = false := by
        have h := ht.head (p := isWord) (by decide) fun _ => isWord_eq_false_of_isWhiteSpace
        cases t with
        | nil => rfl
        | cons c t => simpa using h
      have hlast : ((language.truthWord value).toList.reverse ++ seen).head?.any isWord = true := by
        cases language <;> cases value <;> rfl
      simp only [atWordBoundary, between, ht, hlast]
      rfl
    have h := (hword.group 2).append (v := []) hend
    rwa [List.append_nil] at h

end DryRun
