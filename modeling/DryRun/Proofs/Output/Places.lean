import DryRun.Output
import DryRun.Proofs.Pattern.Matches
import DryRun.Proofs.Text

/-!
# Where printing calls are found

A printing call is *spelled* at a place of a text if its name stands there, behind the object it
belongs to (if any) and not in the middle of a word, and before an argument list that is closed.
The calls that are found are exactly those that are spelled, each at the place of its name
(`mem_placedCalls_iff`).  The search pays no heed to literals: it finds a call in a literal exactly
if the literal spells one.
-/

namespace DryRun

open Pattern Cursor Unicode
open Text (head_of_cons head_of_blank_append blank_unique)

/-! ### Spelled calls -/

/-- The words that name the object whose method prints, part by part. -/
def Language.printObject : Language → List (List String)
  | .java => [["System"], ["out", "err"]]
  | .javaScript => [["console"]]
  | .kotlin | .python | .swift => []

/-- The names of the calls that print. -/
def Language.printNames : Language → List String
  | .kotlin | .java => ["println", "print"]
  | .python => ["print"]
  | .javaScript => ["log", "info", "warn", "error", "debug"]
  | .swift => ["print", "debugPrint"]

/-- Whether a text names an object before a method: one word for each part, a dot behind each of
them, and any white space around the dots. -/
def WritesObject : List (List String) → Text → Prop
  | [], t => t = []
  | words :: parts, t =>
    ∃ s ∈ words, ∃ b b' o : Text, b.isBlank ∧ b'.isBlank ∧ WritesObject parts o ∧
      t = s.toList ++ (b ++ '.' :: (b' ++ o))

/-- Whether a printing call is spelled where `before` ends and `after` begins: its name begins
there. -/
def PrintCall.SpelledAt (call : PrintCall) (language : Language) (before after : Text) : Prop :=
  ∃ lead object gap rest tail : Text,
    before = lead ++ object ∧ lead.getLast?.any isWord = false ∧
    WritesObject language.printObject object ∧
    (∃ s ∈ language.printNames, call.name = s.toList) ∧ gap.isBlank ∧
    after = call.name ++ (gap ++ '(' :: rest) ∧
    Nesting.arguments? rest = some (call.arguments, tail)

/-- The call that a match begins, with the text before its name. -/
def placedCall? (m : Match) : Option (Text × PrintCall) := do
  let name ← m.groupSpan? 1
  let call ← PrintCall.ofMatch? m
  return (name.start.seen.reverse, call)

/-- The calls that are found, each with the text before its name. -/
def placedCalls (language : Language) (t : Text) : List (Text × PrintCall) :=
  (language.printing.call.findAll t).filterMap placedCall?

theorem map_snd_placedCalls (language : Language) (t : Text) :
    (placedCalls language t).map Prod.snd = printCalls language t := by
  rw [placedCalls, printCalls, List.map_filterMap]
  refine List.filterMap_congr fun m _ => ?_
  cases h : m.groupSpan? 1 with
  | none => simp [placedCall?, PrintCall.ofMatch?, Match.group?, h]
  | some span => cases hc : PrintCall.ofMatch? m <;> simp [placedCall?, h, hc]

/-! ### The start of a call -/

theorem isLetters_printObject (language : Language) :
    ∀ words ∈ language.printObject, words ≠ [] ∧ ∀ s ∈ words, IsLetters s.toList := by
  cases language <;> decide

theorem isLetters_printNames (language : Language) :
    language.printNames ≠ [] ∧ ∀ s ∈ language.printNames, IsLetters s.toList := by
  cases language <;> decide

/-- The pattern of an object before a method. -/
def objectPattern (method : Pattern) : List (List String) → Pattern
  | [] => method
  | words :: parts =>
    oneOf words ++ (blanks ++ (char '.' ++ (blanks ++ objectPattern method parts)))

variable {language : Language} {seen w rest : Text} {g g' : List (Nat × Span)}

theorem takes_objectPattern {method : Pattern} : ∀ {parts : List (List String)} {seen w : Text},
    (∀ words ∈ parts, words ≠ []) →
    (Takes (objectPattern method parts) seen w rest g g' ↔
      ∃ o v, WritesObject parts o ∧ w = o ++ v ∧ Takes method (o.reverse ++ seen) v rest g g')
  | [], seen, w, _ => by
    constructor
    · intro h
      exact ⟨[], w, rfl, rfl, h⟩
    · rintro ⟨_, v, rfl, rfl, h⟩
      exact h
  | words :: parts, seen, w, hne => by
    have ih := fun seen w : Text => @takes_objectPattern method parts seen w
      fun x hx => hne x (by simp [hx])
    rw [objectPattern, takes_oneOf_append (hne words (by simp))]
    simp only [takes_blanks_append, takes_char_append, ih, WritesObject]
    constructor
    · rintro ⟨s, hs, _, rfl, b, _, hb, rfl, _, rfl, b', _, hb', rfl, o, v, ho, rfl, h⟩
      exact ⟨_, v, ⟨s, hs, b, b', o, hb, hb', ho, rfl⟩, by simp, by simpa using h⟩
    · rintro ⟨_, v, ⟨s, hs, b, b', o, hb, hb', ho, rfl⟩, rfl, h⟩
      refine ⟨s, hs, b ++ '.' :: (b' ++ (o ++ v)), by simp, b, _, hb, rfl, _, rfl, b', _, hb', rfl,
        o, v, ho, rfl, ?_⟩
      simpa using h

theorem head_of_writesObject : ∀ {parts : List (List String)} {o : Text},
    (∀ words ∈ parts, ∀ s ∈ words, IsLetters s.toList) → WritesObject parts o →
    o = [] ∨ ∃ c v, o = c :: v ∧ c.isAlpha
  | [], _, _, rfl => Or.inl rfl
  | words :: parts, _, hp, ⟨s, hs, b, b', o, _, _, _, rfl⟩ => by
    obtain ⟨hne, hs⟩ := hp words (by simp) s hs
    obtain ⟨c, v, hv⟩ := List.exists_cons_of_ne_nil hne
    exact Or.inr ⟨c, v ++ (b ++ '.' :: (b' ++ o)), by simp [hv], hs c (by simp [hv])⟩

theorem isAlpha_head_of_writesObject {parts : List (List String)} {o name : Text}
    (hp : ∀ words ∈ parts, ∀ s ∈ words, IsLetters s.toList) (hn : IsLetters name)
    (ho : WritesObject parts o) : ∃ c v, o ++ name = c :: v ∧ c.isAlpha := by
  rcases head_of_writesObject hp ho with rfl | ⟨c, v, rfl, hc⟩
  · obtain ⟨c, v, rfl⟩ := List.exists_cons_of_ne_nil hn.1
    exact ⟨c, v, rfl, hn.2 c (by simp)⟩
  · exact ⟨c, v ++ name, rfl, hc⟩

/-- The groups of a call's start: its name, as group 1. -/
def nameGroup (seen object name after : Text) : List (Nat × Span) :=
  [(1, Span.of (object.reverse ++ seen) name after)]

/-- What the start of a printing call takes: object, name, white space and parenthesis. -/
theorem takes_call_iff :
    Takes language.printing.call seen w rest [] g ↔
      ∃ object name gap : Text, w = object ++ (name ++ (gap ++ ['('])) ∧
        seen.head?.any isWord = false ∧ WritesObject language.printObject object ∧
        (∃ s ∈ language.printNames, name = s.toList) ∧ gap.isBlank ∧
        g = nameGroup seen object name (gap ++ '(' :: rest) := by
  have hcall : Takes language.printing.call seen w rest [] g ↔
      Takes (wordBoundary ++ objectPattern (group 1 (oneOf language.printNames) ++
        (blanks ++ char '(')) language.printObject) seen w rest [] g := by
    cases language <;> simp only [Language.printing, takes_assoc] <;> rfl
  have hparts := isLetters_printObject language
  have hnames := isLetters_printNames language
  rw [hcall, takes_wordBoundary_append, takes_objectPattern fun x hx => (hparts x hx).1]
  simp only [takes_group_append, takes_oneOf hnames.1, takes_blanks_append, takes_char]
  constructor
  · rintro ⟨hb, object, _, ho, rfl, name, _, _, rfl, ⟨⟨s, hs, rfl⟩, rfl⟩, gap, _, hgap, rfl, rfl, rfl⟩
    obtain ⟨c, v, hv, hc⟩ := isAlpha_head_of_writesObject (fun x hx => (hparts x hx).2)
      (hnames.2 s hs) ho
    refine ⟨object, _, gap, rfl, ?_, ho, ⟨s, hs, rfl⟩, hgap, by simp [nameGroup]⟩
    rw [← List.append_assoc, hv] at hb
    simpa [atWordBoundary_of_isWord (isWord_of_isAlpha hc)] using hb
  · rintro ⟨object, _, gap, rfl, hb, ho, ⟨s, hs, rfl⟩, hgap, rfl⟩
    obtain ⟨c, v, hv, hc⟩ := isAlpha_head_of_writesObject (fun x hx => (hparts x hx).2)
      (hnames.2 s hs) ho
    refine ⟨?_, object, _, ho, rfl, _, _, _, rfl, ⟨⟨s, hs, rfl⟩, rfl⟩, gap, _, hgap, rfl, rfl,
      by simp [nameGroup]⟩
    rw [← List.append_assoc, hv, List.cons_append, List.cons_append,
      atWordBoundary_of_isWord (isWord_of_isAlpha hc), hb]
    rfl

/-! ### Calls do not overlap -/

/-- The letters that begin printing calls. -/
def Language.printInitials : Language → Text
  | .kotlin | .python => ['p']
  | .java => ['S']
  | .javaScript => ['c']
  | .swift => ['p', 'd']

/-- The words that may begin a printing call. -/
def Language.printFirstWords (language : Language) : List String :=
  (language.printObject ++ [language.printNames]).headD []

/-- The words that may stand later in a printing call. -/
def Language.printLaterWords (language : Language) : List String :=
  (language.printObject ++ [language.printNames]).tail.flatten

theorem printInitials_first (language : Language) : ∀ s ∈ language.printFirstWords,
    s.toList.head?.any (· ∈ language.printInitials) ∧
      ∀ c ∈ s.toList.tail, c ∉ language.printInitials := by
  have h : language.printFirstWords.all fun s => s.toList.head?.any (· ∈ language.printInitials) &&
      s.toList.tail.all (· ∉ language.printInitials) := by
    cases language <;> decide
  simpa only [List.all_eq_true, Bool.and_eq_true, decide_eq_true_eq] using h

theorem printInitials_later (language : Language) : ∀ s ∈ language.printLaterWords,
    ∀ c ∈ s.toList, c ∉ language.printInitials := by
  have h : language.printLaterWords.all fun s => s.toList.all (· ∉ language.printInitials) := by
    cases language <;> decide
  simpa only [List.all_eq_true, decide_eq_true_eq] using h

theorem printInitials_isAlpha (language : Language) : ∀ c ∈ language.printInitials, c.isAlpha := by
  have h : language.printInitials.all Char.isAlpha := by cases language <;> decide
  exact List.all_eq_true.1 h

theorem notMem_printInitials_of_isBlank {b : Text} (hb : b.isBlank) :
    ∀ c ∈ b, c ∉ language.printInitials := by
  intro c hc hi
  have h1 := List.all_eq_true.1 hb c hc
  rw [isWhiteSpace_eq_false_of_isAlpha (printInitials_isAlpha language c hi)] at h1
  cases h1

theorem notMem_printInitials_dot {b b' o : Text} (hb : b.isBlank) (hb' : b'.isBlank)
    (ho : ∀ c ∈ o, c ∉ language.printInitials) :
    ∀ c ∈ b ++ '.' :: (b' ++ o), c ∉ language.printInitials := by
  have hdot : '.' ∉ language.printInitials := fun h =>
    absurd (printInitials_isAlpha language _ h) (by decide)
  simp only [List.forall_mem_append, List.forall_mem_cons]
  exact ⟨notMem_printInitials_of_isBlank hb, hdot, notMem_printInitials_of_isBlank hb', ho⟩

theorem notMem_printInitials_of_writesObject : ∀ {parts : List (List String)} {o : Text},
    (∀ s ∈ parts.flatten, ∀ c ∈ s.toList, c ∉ language.printInitials) → WritesObject parts o →
    ∀ c ∈ o, c ∉ language.printInitials
  | [], _, _, rfl => by simp
  | words :: parts, _, hp, ⟨s, hs, b, b', o, hb, hb', ho, rfl⟩ => by
    simp only [List.flatten_cons, List.forall_mem_append] at hp
    rw [List.forall_mem_append]
    exact ⟨hp.1 s hs, notMem_printInitials_dot hb hb' (notMem_printInitials_of_writesObject hp.2 ho)⟩

/-- The letter that begins a call does not come again before the parenthesis. -/
theorem initial_of_takes_call (h : Takes language.printing.call seen w rest [] g) :
    ∃ c v, w = c :: v ∧ c ∈ language.printInitials ∧ ∀ d ∈ v, d ∉ language.printInitials := by
  obtain ⟨object, _, gap, rfl, -, ho, ⟨s, hs, rfl⟩, hgap, -⟩ := takes_call_iff.1 h
  have hparen : '(' ∉ language.printInitials := fun h => by
    have := printInitials_isAlpha language _ h
    exact absurd this (by decide)
  have hend : ∀ d ∈ gap ++ ['('], d ∉ language.printInitials := by
    simp only [List.forall_mem_append, List.forall_mem_singleton]
    exact ⟨notMem_printInitials_of_isBlank hgap, hparen⟩
  -- the first word has the letter in front only, and the words behind it do not have it
  have hword : ∀ t ∈ language.printFirstWords, ∀ z : Text, (∀ d ∈ z, d ∉ language.printInitials) →
      ∃ c v, t.toList ++ z = c :: v ∧ c ∈ language.printInitials ∧
        ∀ d ∈ v, d ∉ language.printInitials := by
    intro t ht z hz
    obtain ⟨h1, h2⟩ := printInitials_first language t ht
    cases hc : t.toList with
    | nil =>
      rw [hc] at h1
      cases h1
    | cons c v =>
      rw [hc] at h1 h2
      refine ⟨c, v ++ z, rfl, by simpa using h1, ?_⟩
      rw [List.forall_mem_append]
      exact ⟨h2, hz⟩
  have hlater := printInitials_later language
  unfold Language.printFirstWords at hword
  unfold Language.printLaterWords at hlater
  cases hparts : language.printObject with
  | nil =>
    rw [hparts] at ho hword
    obtain rfl : object = [] := ho
    exact hword s (by simpa using hs) _ hend
  | cons words parts =>
    rw [hparts] at ho hword hlater
    simp only [List.cons_append, List.tail_cons, List.flatten_append, List.flatten_singleton,
      List.forall_mem_append] at hlater
    obtain ⟨t, ht, b, b', o, hb, hb', ho, rfl⟩ := ho
    rw [List.append_assoc]
    refine hword t ht _ fun d hd => ?_
    rcases List.mem_append.1 hd with hd | hd
    · exact notMem_printInitials_dot hb hb' (notMem_printInitials_of_writesObject hlater.1 ho) d hd
    · rcases List.mem_append.1 hd with hd | hd
      · exact hlater.2 s hs d hd
      · exact hend d hd

theorem separate_call (language : Language) : Separate language.printing.call where
  ne_nil h := by
    obtain ⟨c, v, rfl, -⟩ := initial_of_takes_call h
    exact List.cons_ne_nil c v
  not_within {seen u v rest g w rest' g'} h hu hv hvw h' := by
    obtain ⟨c, t, ht, -, htail⟩ := initial_of_takes_call h
    obtain ⟨d, z, rfl, hd, -⟩ := initial_of_takes_call h'
    obtain ⟨x, u, rfl⟩ := List.exists_cons_of_ne_nil hu
    obtain ⟨y, v, rfl⟩ := List.exists_cons_of_ne_nil hv
    obtain ⟨rfl, -⟩ := List.cons_eq_cons.1 hvw
    obtain ⟨-, rfl⟩ := List.cons_eq_cons.1 ht
    exact htail y (by simp) hd

/-! ### A call is read in one way -/

/-- Letters end in front of white space with something else behind it. -/
theorem isAlpha_head_of_isBlank {b t : Text} {d : Char} (hb : b.isBlank) (hd : d.isAlpha = false) :
    ∀ c ∈ (b ++ d :: t).head?, c.isAlpha = false :=
  head_of_blank_append hb (fun _ => isAlpha_eq_false_of_isWhiteSpace) (head_of_cons hd)

theorem letters_unique {s s' t t' : Text} (hs : IsLetters s) (hs' : IsLetters s')
    (ht : ∀ c ∈ t.head?, c.isAlpha = false) (ht' : ∀ c ∈ t'.head?, c.isAlpha = false)
    (h : s ++ t = s' ++ t') : s = s' ∧ t = t' :=
  Text.span_unique hs.2 hs'.2 ht ht' h

theorem writesObject_unique : ∀ {parts : List (List String)} {o o' t t' : Text},
    (∀ words ∈ parts, ∀ s ∈ words, IsLetters s.toList) → WritesObject parts o →
    WritesObject parts o' → (∀ c ∈ t.head?, isWhiteSpace c = false) →
    (∀ c ∈ t'.head?, isWhiteSpace c = false) → o ++ t = o' ++ t' → o = o' ∧ t = t'
  | [], _, _, _, _, _, rfl, rfl, _, _, h => ⟨rfl, h⟩
  | words :: parts, _, _, t, t', hp, ⟨s, hs, b, d, o, hb, hd, ho, rfl⟩,
      ⟨s', hs', b', d', o', hb', hd', ho', rfl⟩, ht, ht', h => by
    have hparts : ∀ words ∈ parts, ∀ s ∈ words, IsLetters s.toList := fun x hx => hp x (by simp [hx])
    have hhead : ∀ {o t : Text}, WritesObject parts o → (∀ c ∈ t.head?, isWhiteSpace c = false) →
        ∀ c ∈ (o ++ t).head?, isWhiteSpace c = false := by
      intro o t ho ht c hc
      rcases head_of_writesObject hparts ho with rfl | ⟨d, v, rfl, hd⟩
      · exact ht c hc
      · obtain rfl : d = c := by simpa using hc
        exact isWhiteSpace_eq_false_of_isAlpha hd
    simp only [List.append_assoc, List.cons_append] at h
    -- the word, the white space behind it, the dot and the white space behind that
    obtain ⟨hw, h1⟩ := letters_unique (hp words (by simp) s hs) (hp words (by simp) s' hs')
      (isAlpha_head_of_isBlank hb rfl) (isAlpha_head_of_isBlank hb' rfl) h
    obtain ⟨rfl, h2⟩ := blank_unique hb hb' (head_of_cons rfl) (head_of_cons rfl) h1
    obtain ⟨-, h3⟩ := List.cons_eq_cons.1 h2
    obtain ⟨rfl, h4⟩ := blank_unique hd hd' (hhead ho ht) (hhead ho' ht') h3
    obtain ⟨rfl, rfl⟩ := writesObject_unique hparts ho ho' ht ht' h4
    exact ⟨by rw [hw], rfl⟩

/-- The start of a call at a place is determined by the text. -/
theorem nameGroup_unique {object name gap object' name' gap' rest' : Text}
    (ho : WritesObject language.printObject object) (ho' : WritesObject language.printObject object')
    (hn : ∃ s ∈ language.printNames, name = s.toList)
    (hn' : ∃ s ∈ language.printNames, name' = s.toList) (hg : gap.isBlank) (hg' : gap'.isBlank)
    (h : object ++ (name ++ (gap ++ '(' :: rest)) = object' ++ (name' ++ (gap' ++ '(' :: rest'))) :
    object = object' ∧ name = name' ∧ gap = gap' ∧ rest = rest' := by
  have hletters : ∀ {name : Text}, (∃ s ∈ language.printNames, name = s.toList) → IsLetters name := by
    rintro name ⟨s, hs, rfl⟩
    exact (isLetters_printNames language).2 s hs
  have hhead : ∀ {name t : Text}, IsLetters name →
      ∀ c ∈ (name ++ t).head?, isWhiteSpace c = false := by
    intro name t hname
    obtain ⟨c, v, rfl⟩ := List.exists_cons_of_ne_nil hname.1
    exact head_of_cons (isWhiteSpace_eq_false_of_isAlpha (hname.2 c (by simp)))
  obtain ⟨rfl, h1⟩ := writesObject_unique (fun x hx => (isLetters_printObject language x hx).2) ho ho'
    (hhead (hletters hn)) (hhead (hletters hn')) h
  obtain ⟨rfl, h2⟩ := letters_unique (hletters hn) (hletters hn') (isAlpha_head_of_isBlank hg rfl)
    (isAlpha_head_of_isBlank hg' rfl) h1
  obtain ⟨rfl, h3⟩ := blank_unique hg hg' (head_of_cons rfl) (head_of_cons rfl) h2
  exact ⟨rfl, rfl, rfl, List.tail_eq_of_cons_eq h3⟩

theorem matchAt?_call {object name gap : Text} (hapart : seen.head?.any isWord = false)
    (ho : WritesObject language.printObject object) (hn : ∃ s ∈ language.printNames, name = s.toList)
    (hg : gap.isBlank) :
    language.printing.call.matchAt? (between seen (object ++ (name ++ (gap ++ '(' :: rest)))) =
      some (matchOf seen (object ++ (name ++ (gap ++ ['(']))) rest
        (nameGroup seen object name (gap ++ '(' :: rest))) := by
  have htakes : Takes language.printing.call seen (object ++ (name ++ (gap ++ ['(']))) rest []
      (nameGroup seen object name (gap ++ '(' :: rest)) :=
    takes_call_iff.2 ⟨object, name, gap, rfl, hapart, ho, hn, hg, rfl⟩
  obtain ⟨m, hm⟩ := exists_matchAt? htakes
  -- the match is the one spelled, since the text can be read in one way only
  obtain ⟨w', rest', g', hw', rfl, h'⟩ := takes_of_matchAt?_eq_some hm
  obtain ⟨object', name', gap', rfl, -, ho', hn', hg', rfl⟩ := takes_call_iff.1 h'
  have hread : object ++ (name ++ (gap ++ '(' :: rest)) =
      object' ++ (name' ++ (gap' ++ '(' :: rest')) := by simpa using hw'
  obtain ⟨rfl, rfl, rfl, rfl⟩ := nameGroup_unique ho ho' hn hn' hg hg' hread
  simpa using hm

/-! ### Found calls are spelled calls -/

/-- What is read off the start of a call: the name, and the arguments if their list is closed. -/
theorem ofMatch?_matchOf {object name after : Text} :
    PrintCall.ofMatch? (matchOf seen w rest (nameGroup seen object name after)) =
      (Nesting.arguments? rest).map fun (args, _) => ⟨name, args⟩ := by
  have hname : (matchOf seen w rest (nameGroup seen object name after)).group? 1 = some name :=
    congrArg some (Span.text_of (object.reverse ++ seen) name after)
  have hrest : (matchOf seen w rest (nameGroup seen object name after)).rest = rest := rfl
  rw [PrintCall.ofMatch?, hname, hrest]
  cases Nesting.arguments? rest <;> rfl

theorem placedCall?_matchOf {u object name after : Text} {p : Text × PrintCall} :
    placedCall? (matchOf u.reverse w rest (nameGroup u.reverse object name after)) = some p ↔
      ∃ args tail, Nesting.arguments? rest = some (args, tail) ∧ p = (u ++ object, ⟨name, args⟩) := by
  have hspan : (matchOf u.reverse w rest (nameGroup u.reverse object name after)).groupSpan? 1 =
      some (Span.of (object.reverse ++ u.reverse) name after) := rfl
  simp only [placedCall?, hspan, ofMatch?_matchOf]
  cases Nesting.arguments? rest with
  | none => simp
  | some a =>
    obtain ⟨args, tail⟩ := a
    simp [Span.of, between, eq_comm]

/-- **The calls that are found are those that are spelled**, each at the place of its name. -/
theorem mem_placedCalls_iff {t before : Text} {call : PrintCall} :
    (before, call) ∈ placedCalls language t ↔
      ∃ after, t = before ++ after ∧ call.SpelledAt language before after := by
  simp only [placedCalls, List.mem_filterMap, mem_findAll_iff (separate_call language)]
  constructor
  · rintro ⟨m, ⟨u, v, rfl, hm⟩, hp⟩
    obtain ⟨w, rest, g, rfl, rfl, hw⟩ := takes_of_matchAt?_eq_some hm
    obtain ⟨object, name, gap, rfl, hb, ho, hn, hg, rfl⟩ := takes_call_iff.1 hw
    obtain ⟨args, tail, hargs, hp⟩ := placedCall?_matchOf.1 hp
    obtain ⟨rfl, rfl⟩ := Prod.mk.inj hp
    refine ⟨name ++ (gap ++ '(' :: rest), by simp, u, object, gap, rest, tail, rfl, ?_, ho, hn, hg,
      rfl, hargs⟩
    simpa using hb
  · rintro ⟨_, rfl, u, object, gap, rest, tail, rfl, hb, ho, hn, hg, rfl, hargs⟩
    refine ⟨_, ⟨u, object ++ (call.name ++ (gap ++ '(' :: rest)), by simp,
      matchAt?_call (by simpa using hb) ho hn hg⟩, ?_⟩
    exact placedCall?_matchOf.2 ⟨call.arguments, tail, hargs, rfl⟩

end DryRun
