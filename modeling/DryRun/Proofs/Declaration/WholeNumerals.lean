import DryRun.Proofs.Declaration.Forms
import DryRun.Proofs.Lookup

/-!
# Numerals that are read as a whole

The pass for numerals reads a possible sign, digits of any script, and a point with more digits, as far
as they go, and does not look at what comes next.  So the value that it binds is a numeral that ends
where its word ends exactly if the initialiser begins with such a numeral
(`placedNumbers_whole_iff`).  Of any other initialiser (`0x1F`, `1_000`, `2e5`, `10L`, digits beyond
ASCII) the pass binds a piece.
-/

namespace DryRun

open Pattern Cursor Unicode

/-- Whether a text begins with a numeral that is a word as a whole: a possible sign, a word of ASCII
digits and, if a point and a digit follow, another such word. -/
def Numeral.standsWhole (t : Text) : Bool :=
  let digits := if t.head? = some '-' then t.tail else t
  isDigits (digits.takeWhile isWord) &&
    match digits.dropWhile isWord with
    | '.' :: c :: rest => !isDecimalDigit c || isDigits ((c :: rest).takeWhile isWord)
    | _ => true

/-- A number that a declaration gives a name, and its place. -/
structure PlacedNumber where
  name : Text
  value : Text
  /-- The text before the number. -/
  before : Text
  /-- The text after the number. -/
  after : Text
deriving DecidableEq, Repr

/-- Whether a text ends in what a declaration has in front of a number: an opening that names the
name. -/
def Language.OpensNumber (language : Language) (before name after : Text) : Prop :=
  ∃ lead opening g, before = lead ++ opening ∧
    Takes (language.declarationOpening .number) lead.reverse opening after [] g ∧
    (g.lookup 1).map Span.text = some name

namespace Declaration

/-- The number in a match of a declaration, with its place. -/
def placedNumber? (m : Match) : Option PlacedNumber := do
  let (name, value) ← ofMatch? m
  let span ← m.groupSpan? 2
  return ⟨name, value, span.start.seen.reverse, m.rest⟩

/-- The declarations of names with numbers, each with its place. -/
def placedNumbers (language : Language) (t : Text) : List PlacedNumber :=
  ((language.declarations.numbers.findAll t).filter fun m => !goesOnCalculating m.rest).filterMap
    placedNumber?

end Declaration

variable {language : Language} {t w rest d : Text} {m : Match} {p : PlacedNumber}

/-! ### Words of digits -/

theorem isWord_of_isDecimalDigit {c : Char} (h : isDecimalDigit c) : isWord c := by
  simp only [isDecimalDigit, Bool.or_eq_true] at h
  rcases h with h | h <;> simp [isWord, Char.isAlphanum, h]

/-- Where digits end, they are a word of ASCII digits if all are ASCII and the word ends with them. -/
theorem isDigits_takeWhile_iff (hd : ∀ c ∈ d, isDecimalDigit c)
    (hrest : ∀ c ∈ rest.head?, isDecimalDigit c = false) :
    Numeral.isDigits ((d ++ rest).takeWhile isWord) ↔
      IsDigits d ∧ ∀ c ∈ rest.head?, isWord c = false := by
  have hword : ∀ c ∈ d, isWord c := fun c hc => isWord_of_isDecimalDigit (hd c hc)
  rw [isDigits_iff, List.takeWhile_append_of_pos hword]
  cases rest with
  | nil => simp
  | cons c rest =>
    cases hc : isWord c with
    | false => simp [hc]
    | true =>
      refine iff_of_false (fun h => ?_) (by simp [hc])
      have hdigit := isDecimalDigit_of_isDigit (h.2 c (by simp [hc]))
      rw [hrest c (by simp)] at hdigit
      cases hdigit

theorem ReadsNumber.isNumeral_iff {sign whole fraction : Text}
    (h : ReadsNumber sign whole fraction rest) :
    Text.isNumeral (sign ++ (whole ++ fraction)) ↔ IsDigits whole ∧ ∀ digits,
      fraction = '.' :: digits → IsDigits digits := by
  constructor
  · intro hn
    -- of the digits of all scripts, a numeral has those of ASCII only
    have hascii : ∀ c ∈ sign ++ (whole ++ fraction), isDecimalDigit c → c.isDigit := by
      intro c hc hd
      rcases forall_mem_of_isNumeral hn c hc with rfl | rfl | hc
      · exact absurd hd (by decide)
      · exact absurd hd (by decide)
      · exact hc
    refine ⟨⟨h.ne_nil, fun c hc => hascii c (by simp [hc]) (h.digits c hc)⟩, ?_⟩
    rintro digits rfl
    rcases h.fraction with ⟨hnil, -⟩ | ⟨digits', hne, heq, hdigits, -⟩
    · cases hnil
    · obtain rfl := (List.cons_eq_cons.1 heq).2
      exact ⟨hne, fun c hc => hascii c (by simp [hc]) (hdigits c hc)⟩
  · rintro ⟨hwhole, hfraction⟩
    refine isNumeral_of_parts h.sign hwhole ?_
    rcases h.fraction with ⟨rfl, -⟩ | ⟨digits, -, rfl, -⟩
    · exact Or.inl rfl
    · exact Or.inr ⟨digits, rfl, hfraction digits rfl⟩

/-- **A number that is read is a numeral and ends its word** exactly if a whole numeral stands there. -/
theorem ReadsNumber.whole_iff {sign whole fraction : Text}
    (h : ReadsNumber sign whole fraction rest) :
    (Text.isNumeral (sign ++ (whole ++ fraction)) ∧ ∀ c ∈ rest.head?, isWord c = false) ↔
      Numeral.standsWhole (sign ++ (whole ++ fraction) ++ rest) := by
  have hunsigned : (if (sign ++ (whole ++ fraction) ++ rest).head? = some '-'
      then (sign ++ (whole ++ fraction) ++ rest).tail
      else sign ++ (whole ++ fraction) ++ rest) = whole ++ (fraction ++ rest) := by
    rcases h.sign with rfl | rfl
    · obtain ⟨c, z, hz⟩ := List.exists_cons_of_ne_nil h.ne_nil
      have hc : c ≠ '-' := by
        rintro rfl
        exact absurd (h.digits '-' (by simp [hz])) (by decide)
      simp [hz, hc]
    · simp
  have hword : ∀ c ∈ whole, isWord c := fun c hc => isWord_of_isDecimalDigit (h.digits c hc)
  rw [h.isNumeral_iff, Numeral.standsWhole, hunsigned, Bool.and_eq_true,
    isDigits_takeWhile_iff h.digits h.ends, List.dropWhile_append_of_pos hword]
  rcases h.fraction with ⟨rfl, hpoint⟩ | ⟨digits, hne, rfl, hdigits, hend⟩
  · -- no digit follows a point here
    have hmatch : ∀ r : Text, (∀ c ∈ r.head?, isWord c = false) →
        (∀ c z, r = '.' :: c :: z → isDecimalDigit c = false) →
        (match r.dropWhile isWord with
          | '.' :: c :: z => !isDecimalDigit c || Numeral.isDigits ((c :: z).takeWhile isWord)
          | _ => true) = true := by
      intro r hr hpoint
      rw [Text.dropWhile_eq_self hr]
      split
      · simp [hpoint _ _ rfl]
      · rfl
    constructor
    · rintro ⟨⟨hwhole, -⟩, hrest⟩
      exact ⟨⟨hwhole, hrest⟩, hmatch rest hrest hpoint⟩
    · rintro ⟨⟨hwhole, hrest⟩, -⟩
      exact ⟨⟨hwhole, by simp⟩, hrest⟩
  · obtain ⟨c, z, rfl⟩ := List.exists_cons_of_ne_nil hne
    have hdot : isWord '.' = false := by decide
    have hc : isDecimalDigit c := hdigits c (by simp)
    have hfraction := isDigits_takeWhile_iff hdigits hend
    rw [List.cons_append] at hfraction
    simp [hdot, hc, hfraction, and_assoc]

/-! ### What the pass reads -/

namespace Declaration

/-- A found declaration of a number reads it as far as it goes, behind an opening that may name it. -/
theorem exists_readsNumber_of_mem (hm : m ∈ language.declarations.numbers.findAll t) :
    ∃ lead opening g sign whole fraction,
      t = lead ++ opening ++ (sign ++ (whole ++ fraction) ++ m.rest) ∧
      Takes (language.declarationOpening .number) lead.reverse opening
        (sign ++ (whole ++ fraction) ++ m.rest) [] g ∧
      ReadsNumber sign whole fraction m.rest ∧
      ofMatch? m = (g.lookup 1).map (fun name => (name.text, sign ++ (whole ++ fraction))) ∧
      placedNumber? m = (g.lookup 1).map fun name =>
        ⟨name.text, sign ++ (whole ++ fraction), lead ++ opening, m.rest⟩ := by
  rw [findAll_eq_findFrom] at hm
  obtain ⟨lead, r, rfl, hmatch⟩ := matchAt?_of_mem_findFrom hm
  rw [List.append_nil] at hmatch
  obtain ⟨w, rest, g', rfl, rfl, hprefers⟩ := prefers_of_matchAt? hmatch
  have hprefers : Prefers (language.declaration .number) lead.reverse w rest [] g' := hprefers
  rw [declaration_eq] at hprefers
  -- the match is an opening and a value, and the value is read as far as it goes
  obtain ⟨opening, value, g, rfl, hopening, hvalue⟩ := hprefers.of_append
  obtain ⟨sign, whole, fraction, rfl, hreads, rfl⟩ := readsNumber_of_prefers hvalue
  have hread : ofMatch? (matchOf lead.reverse (opening ++ (sign ++ (whole ++ fraction))) rest
      ((2, Span.of (opening.reverse ++ lead.reverse) (sign ++ (whole ++ fraction)) rest) :: g)) =
      (g.lookup 1).map fun name => (name.text, sign ++ (whole ++ fraction)) := by
    cases h : g.lookup 1 <;>
      simp [ofMatch?, Match.group?, Match.groupSpan?, matchOf, List.lookup_cons, h]
  refine ⟨lead, opening, g, sign, whole, fraction, by simp [matchOf, Match.rest, Span.of, between],
    hopening, hreads, hread, ?_⟩
  rw [placedNumber?, hread]
  cases g.lookup 1 <;> simp [Match.groupSpan?, matchOf, Match.rest, Span.of, between]

theorem map_placedNumbers (language : Language) (t : Text) :
    (placedNumbers language t).map (fun p => (p.name, p.value)) = numbers language t := by
  rw [placedNumbers, numbers, List.map_filterMap]
  refine List.filterMap_congr fun m hm => ?_
  obtain ⟨lead, opening, g, sign, whole, fraction, -, -, -, hread, hplaced⟩ :=
    exists_readsNumber_of_mem (List.mem_filter.1 hm).1
  rw [hread, hplaced]
  cases g.lookup 1 <;> rfl

/-- A placed number stands where it was read, and goes as far as it can. -/
theorem readsNumber_of_mem_placedNumbers (hp : p ∈ placedNumbers language t) :
    t = p.before ++ (p.value ++ p.after) ∧
      language.OpensNumber p.before p.name (p.value ++ p.after) ∧
      ∃ sign whole fraction, p.value = sign ++ (whole ++ fraction) ∧
        ReadsNumber sign whole fraction p.after := by
  obtain ⟨m, hm, hplaced⟩ := List.mem_filterMap.1 hp
  obtain ⟨lead, opening, g, sign, whole, fraction, ht, hopening, hreads, -, hplaced'⟩ :=
    exists_readsNumber_of_mem (List.mem_filter.1 hm).1
  rw [hplaced', Option.map_eq_some_iff] at hplaced
  obtain ⟨name, hname, rfl⟩ := hplaced
  exact ⟨ht, ⟨lead, opening, g, rfl, hopening, by rw [hname]; rfl⟩, sign, whole, fraction, rfl, hreads⟩

/-- The pass for numerals binds a name that has no string to the first of its numbers. -/
theorem get?_insertAllNew_numbers (language : Language) (t name : Text) :
    ((Bindings.ofList (strings language t)).insertAllNew (numbers language t)).get? name =
      ((Bindings.ofList (strings language t)).get? name <|>
        ((placedNumbers language t).find? (name == ·.name)).map (·.value)) := by
  rw [Bindings.get?_insertAllNew, ← map_placedNumbers, lookup_map]

/-- **A bound number is a numeral and a whole word exactly if a whole numeral stands there.**  The pass
for numerals binds a name to the first of its numbers that begins no calculation.  Each of them stands
behind an opening that names the name; it is a numeral that no word character follows if and only if
the text from there on begins with a whole numeral. -/
theorem placedNumbers_whole_iff (language : Language) (t : Text) :
    (∀ name, ((Bindings.ofList (strings language t)).insertAllNew (numbers language t)).get? name =
      ((Bindings.ofList (strings language t)).get? name <|>
        ((placedNumbers language t).find? (name == ·.name)).map (·.value))) ∧
      ∀ p ∈ placedNumbers language t, t = p.before ++ (p.value ++ p.after) ∧
        language.OpensNumber p.before p.name (p.value ++ p.after) ∧
        ((p.value.isNumeral ∧ ∀ c ∈ p.after.head?, isWord c = false) ↔
          Numeral.standsWhole (p.value ++ p.after)) := by
  refine ⟨get?_insertAllNew_numbers language t, fun p hp => ?_⟩
  obtain ⟨ht, hopens, sign, whole, fraction, hvalue, hreads⟩ := readsNumber_of_mem_placedNumbers hp
  refine ⟨ht, hopens, ?_⟩
  rw [hvalue]
  exact hreads.whole_iff

/-- A method of a numeral is no part of its word. -/
theorem placedNumbers_whole_iff_method :
    let t := "let a = -1.50.toFixed(1); let b = 10n".toList
    let p : PlacedNumber := ⟨"a".toList, "-1.50".toList, "let a = ".toList,
      ".toFixed(1); let b = 10n".toList⟩
    p ∈ placedNumbers .javaScript t ∧ p.value.isNumeral ∧ ∀ c ∈ p.after.head?, isWord c = false := by
  intro t p
  have hp : p ∈ placedNumbers .javaScript t := by decide
  exact ⟨hp, ((placedNumbers_whole_iff .javaScript t).2 p hp).2.2.2 (by decide)⟩

/-- Of a hexadecimal numeral the digit before the `x` is bound. -/
theorem not_placedNumbers_whole :
    ¬ ∀ (language : Language) (t name : Text) (p : PlacedNumber),
      (Bindings.ofList (strings language t)).get? name = none →
      (placedNumbers language t).find? (name == ·.name) = some p →
        p.value.isNumeral ∧ ∀ c ∈ p.after.head?, isWord c = false := by
  intro h
  have h' := h .kotlin "val x = 0x1F".toList "x".toList
    ⟨"x".toList, "0".toList, "val x = ".toList, "x1F".toList⟩ (by decide) (by decide)
  exact absurd (h'.2 'x' (by decide)) (by decide)

end Declaration

end DryRun
