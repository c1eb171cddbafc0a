import DryRun.Proofs.Declaration.Forms
import DryRun.Proofs.Lookup

/-!
# Programs of declarations

A program that consists of declarations, each on a line of its own, declares what its lines say.  Of a
line exactly one scan finds something, the one for the line's kind of value, and it finds the name and
the value (`findFrom_declaredLine`, `findFrom_declaredLine_of_ne`); so each scan reads off the whole
program the lines of its kind (`filterMap_findAll_declaringProgram`).
-/

namespace DryRun

open Pattern Cursor Unicode

/-- A line that declares a name with a literal value. -/
structure DeclaredLine (language : Language) where
  /-- The keyword, with the blanks behind it. -/
  lead : Text
  name : Text
  /-- What stands between the name and the `=`, possibly with a type. -/
  link : Text
  /-- The blanks behind the `=`. -/
  space : Text
  value : DeclaredValue
  /-- What stands behind the value: semicolons and white space. -/
  ending : Text
  lead_ok : language.IsLead value.kind lead
  name_ascii : name.isAsciiName
  link_ok : language.IsLink link
  space_indent : ∀ c ∈ space, isIndent c
  value_writable : value.IsWritable
  ending_plain : ∀ c ∈ ending, c = ';' ∨ isWhiteSpace c

namespace DeclaredLine

variable {language : Language} {k : ValueKind} {seen r : Text}

/-- The line up to the value. -/
def opening (l : DeclaredLine language) : Text := l.lead ++ (l.name ++ (l.link ++ '=' :: l.space))

def text (l : DeclaredLine language) : Text :=
  l.opening ++ (l.value.written language ++ l.ending)

/-- Whether a text may follow a line: there is none, or a line feed comes first. -/
def Follows (t : Text) : Prop := ∀ c ∈ t.head?, c = '\n'

theorem endsValue_ending (l : DeclaredLine language) (hr : Follows r) : EndsValue (l.ending ++ r) := by
  intro c hc
  cases he : l.ending with
  | nil =>
    rw [he] at hc
    obtain rfl := hr c hc
    exact Or.inr rfl
  | cons d e =>
    rw [he] at hc
    obtain rfl : d = c := by simpa using hc
    exact l.ending_plain d (by simp [he])

theorem exists_initial (l : DeclaredLine language) :
    ∃ c z, l.value.written language = c :: z ∧ ValueKind.ofInitial? c = some l.value.kind := by
  obtain ⟨s, -, h⟩ := prefers_value language [] [] l.value_writable (t := []) (by simp [EndsValue])
  exact exists_initial_of_takes h.takes

theorem equals_notMem (l : DeclaredLine language) : '=' ∉ l.lead ++ (l.name ++ l.link) := by
  intro h
  simp only [List.mem_append] at h
  rcases h with h | h | h
  · rcases l.lead_ok.forall_mem _ h with h | h <;> exact absurd h (by decide)
  · exact absurd (Text.forall_mem_of_isAsciiName l.name_ascii _ h) (by decide)
  · rcases l.link_ok.forall_mem _ h with h | h | h <;> exact absurd h (by decide)

theorem forall_mem_opening (l : DeclaredLine language) :
    ∀ c ∈ l.opening, isTypeSign c ∨ isWhiteSpace c ∨ c = ':' ∨ c = '=' := by
  have hindent : ∀ c, isIndent c → isTypeSign c ∨ isWhiteSpace c ∨ c = ':' ∨ c = '=' :=
    fun c hc => Or.inr (Or.inl (isWhiteSpace_of_isIndent hc))
  have hword : ∀ c, isWord c → isTypeSign c ∨ isWhiteSpace c ∨ c = ':' ∨ c = '=' :=
    fun c hc => Or.inl (by simp [isTypeSign, hc])
  intro c hc
  simp only [opening, List.mem_append, List.mem_cons] at hc
  rcases hc with hc | hc | hc | rfl | hc
  · exact (l.lead_ok.forall_mem c hc).elim (fun h => hword c (isWord_of_isAlpha h)) (hindent c)
  · exact hword c (Text.isWord_of_isAsciiName l.name_ascii c hc)
  · rcases l.link_ok.forall_mem c hc with h | rfl | h
    · exact hindent c h
    · exact Or.inr (Or.inr (Or.inl rfl))
    · exact Or.inl h
  · exact Or.inr (Or.inr (Or.inr rfl))
  · exact hindent c (l.space_indent c hc)

/-- The rest of the line behind the value announces nothing. -/
theorem quiet_ending (l : DeclaredLine language) (hr : Follows r) :
    Quiet (language.Announces k) seen l.ending r := by
  by_cases hl : language = .python
  · subst hl
    refine quiet_of_notMem (fun h => ?_) fun c hc => ?_
    · rcases l.ending_plain _ h with h | h <;> exact absurd h (by decide)
    · rw [hr c hc]
      decide
  · refine quiet_of_not_isAlpha hl fun c hc => ?_
    rcases l.ending_plain c hc with rfl | hws
    · rfl
    · exact isAlpha_eq_false_of_isWhiteSpace hws

/-- Nor does the value, for a scan that has passed the `=`. -/
theorem quiet_value (l : DeclaredLine language) (hr : Follows r)
    (hv : ∀ body, l.value = .string body → '=' ∉ body) :
    Quiet (language.Announces k) ('=' :: seen) (l.space ++ l.value.written language) (l.ending ++ r) := by
  by_cases hl : language = .python
  · subst hl
    -- the value has no line feed in it, so no line begins there
    refine quiet_of_not_lineStart (fun h => ?_) rfl
    rcases List.mem_append.1 h with h | h
    · exact absurd (l.space_indent _ h) (by decide)
    · have hv := l.value_writable
      cases hval : l.value with
      | string body =>
        rw [hval] at h hv
        have hbody : '\n' ∈ body := by simpa [DeclaredValue.written] using h
        exact hv.2 hbody
      | number numeral =>
        rw [hval] at h hv
        rcases forall_mem_of_isNumeral hv _ h with h | h | h <;> exact absurd h (by decide)
      | truth value =>
        rw [hval] at h
        exact absurd ((isLetters_truthWord .python value).2 _ h) (by decide)
  · have hquiet : ∀ {u seen r}, (∀ c ∈ u, c.isAlpha = false) →
        Quiet (language.Announces k) seen u r := quiet_of_not_isAlpha hl
    have hspace : ∀ c ∈ l.space, c.isAlpha = false := fun c hc =>
      isAlpha_eq_false_of_isWhiteSpace (isWhiteSpace_of_isIndent (l.space_indent c hc))
    refine (hquiet hspace).append ?_
    have hwritable := l.value_writable
    cases hval : l.value with
    | string body =>
      have hquote : ∀ c ∈ ('"' :: (l.ending ++ r)).head?, c ≠ '=' ∧ language.isHeadSign c = false := by
        intro c hc
        obtain rfl : '"' = c := by simpa using hc
        cases language <;> decide
      have hbody : Quiet (language.Announces k) (['"'].reverse ++ (l.space.reverse ++ '=' :: seen)) body
          (['"'] ++ (l.ending ++ r)) := quiet_of_notMem (hv body hval) hquote
      have hopen : Quiet (language.Announces k) (l.space.reverse ++ '=' :: seen) ['"']
          ((body ++ ['"']) ++ (l.ending ++ r)) := hquiet (by simp)
      exact hopen.append (v := body ++ ['"']) (hbody.append (hquiet (by simp)))
    | number numeral =>
      rw [hval] at hwritable
      refine hquiet fun c hc => ?_
      rcases forall_mem_of_isNumeral hwritable c hc with rfl | rfl | hd
      · rfl
      · rfl
      · exact isAlpha_eq_false_of_isDigit hd
    | truth value =>
      refine quiet_word hl (isLetters_truthWord language value) (fun s hs h => ?_) ?_
      · have hne := truthWord_notMem_declarationKeywords language k value
        exact hne (String.toList_injective h ▸ hs)
      · exact (l.endsValue_ending hr).head (by decide) fun _ => isAlpha_eq_false_of_isWhiteSpace

/-! ### One line -/

/-- The line is matched up to the end of the value, and the name and the value are read off it. -/
theorem exists_prefers (l : DeclaredLine language) (hseen : seen.head?.all (· == '\n'))
    (hr : Follows r) :
    ∃ g, Prefers (language.declaration l.value.kind) seen (l.opening ++ l.value.written language)
        (l.ending ++ r) [] g ∧
      Declaration.ofMatch? (matchOf seen (l.opening ++ l.value.written language) (l.ending ++ r) g) =
        some (l.name, l.value.read language) := by
  have hhead : ∀ c ∈ (l.value.written language ++ (l.ending ++ r)).head?, isWhiteSpace c = false := by
    obtain ⟨c, z, hwritten, hc⟩ := l.exists_initial
    rw [hwritten]
    exact Text.head_of_cons (isWhiteSpace_of_ofInitial? hc)
  have hopening := prefers_opening hseen l.lead_ok l.name_ascii l.link_ok l.space_indent hhead
  obtain ⟨s, hs, hvalue⟩ := prefers_value language (l.opening.reverse ++ seen)
    [(1, Span.of (l.lead.reverse ++ seen) l.name
      (l.link ++ '=' :: (l.space ++ (l.value.written language ++ (l.ending ++ r)))))]
    l.value_writable (l.endsValue_ending hr)
  refine ⟨_, declaration_eq language _ ▸ hopening.append hvalue, ?_⟩
  simp [Declaration.ofMatch?, Match.group?, Match.groupSpan?, matchOf, List.lookup_cons, hs]

/-- **The scan for a line's kind of value finds the line's name and value**, and goes on behind the
line. -/
theorem findFrom_declaredLine (l : DeclaredLine language) (hseen : seen.head?.all (· == '\n'))
    (hr : Follows r) :
    ∃ m, Declaration.ofMatch? m = some (l.name, l.value.read language) ∧ m.rest = l.ending ++ r ∧
      (language.declaration l.value.kind).findFrom seen (l.text ++ r) =
        m :: (language.declaration l.value.kind).findFrom (l.text.reverse ++ seen) r := by
  obtain ⟨g, hmatch, hread⟩ := l.exists_prefers hseen hr
  have hne : l.opening ++ l.value.written language ≠ [] := by simp [opening]
  have hquiet : Quiet (language.Announces l.value.kind)
      ((l.opening ++ l.value.written language).reverse ++ seen) l.ending r := l.quiet_ending hr
  have hfound := findFrom_of_some hne hmatch.matchAt?
  rw [(begins_declaration language l.value.kind).findFrom_append hquiet] at hfound
  refine ⟨_, hread, rfl, ?_⟩
  simpa [DeclaredLine.text] using hfound

/-- **Every other scan finds nothing in the line.** -/
theorem findFrom_declaredLine_of_ne (l : DeclaredLine language) (hk : k ≠ l.value.kind)
    (hr : Follows r) (hv : ∀ body, l.value = .string body → '=' ∉ body) :
    (language.declaration k).findFrom seen (l.text ++ r) =
      (language.declaration k).findFrom (l.text.reverse ++ seen) r := by
  obtain ⟨c, z, hwritten, hc⟩ := l.exists_initial
  have hhead : Quiet (language.Announces k) seen ((l.lead ++ (l.name ++ l.link)) ++ ['='])
      (l.space ++ l.value.written language ++ (l.ending ++ r)) := by
    rw [hwritten, List.append_assoc l.space, List.cons_append]
    refine quiet_head l.equals_notMem (isBlank_of_isIndent l.space_indent)
      (isWhiteSpace_of_ofInitial? hc) ?_
    rw [hc]
    exact fun h => hk (Option.some.inj h).symm
  have hvalue : Quiet (language.Announces k)
      (((l.lead ++ (l.name ++ l.link)) ++ ['=']).reverse ++ seen) (l.space ++ l.value.written language)
      (l.ending ++ r) := by
    rw [List.reverse_concat, List.cons_append]
    exact l.quiet_value hr hv
  have hquiet := (hhead.append hvalue).append (l.quiet_ending hr)
  have hfound := (begins_declaration language k).findFrom_append hquiet
  simpa [DeclaredLine.text, opening] using hfound

end DeclaredLine

open DeclaredLine

variable {language : Language} {k : ValueKind} {seen r : Text}

/-! ### Programs -/

/-- The program that consists of these lines. -/
def declaringProgram (lines : List (DeclaredLine language)) : Text :=
  List.intercalate ['\n'] (lines.map DeclaredLine.text)

/-- The value of a kind that a line gives a name. -/
def DeclaredLine.gives? (name : Text) (k : ValueKind) (l : DeclaredLine language) : Option Text :=
  if l.name = name ∧ l.value.kind = k then some l.value.bound else none

/-- The values of a kind that the lines give a name, in order. -/
def valuesOf (name : Text) (k : ValueKind) (lines : List (DeclaredLine language)) : List Text :=
  lines.filterMap (·.gives? name k)

theorem matchAt?_lineFeed : (language.declaration k).matchAt? (between seen ('\n' :: r)) = none := by
  refine (begins_declaration language k).matchAt?_eq_none fun x y h => ?_
  by_cases hl : language = .python
  · subst hl
    rintro ⟨u, v, space, c, rfl, ⟨-, rfl⟩, hhead, -, -⟩
    cases v with
    | nil => exact absurd (List.cons_eq_cons.1 h).1 (by decide)
    | cons d v =>
      obtain ⟨rfl, -⟩ := List.cons_eq_cons.1 h
      exact absurd (hhead '\n' (by simp)) (by decide)
  · have hquiet : Quiet (language.Announces k) seen ['\n'] r := quiet_of_not_isAlpha hl (by simp)
    exact hquiet [] ['\n'] rfl (by simp) x y h

/-- What a line declares, if its value is of a kind. -/
def DeclaredLine.declares? (k : ValueKind) (l : DeclaredLine language) : Option (Text × Text) :=
  if l.value.kind = k then some (l.name, l.value.bound) else none

/-- Whether what is read off the match of a line with a kind of values is what the line declares. -/
def Reads (language : Language) (k : ValueKind) (f : Match → Option (Text × Text)) : Prop :=
  ∀ (l : DeclaredLine language) m r, l.value.kind = k → Follows r →
    Declaration.ofMatch? m = some (l.name, l.value.read language) → m.rest = l.ending ++ r →
      f m = some (l.name, l.value.bound)

variable {f : Match → Option (Text × Text)}

theorem filterMap_findFrom_declaredLine (hf : Reads language k f) (l : DeclaredLine language)
    (hl : ∀ body, l.value = .string body → '=' ∉ body) (hseen : seen.head?.all (· == '\n'))
    (hr : Follows r) :
    ((language.declaration k).findFrom seen (l.text ++ r)).filterMap f =
      (l.declares? k).toList ++
        ((language.declaration k).findFrom (l.text.reverse ++ seen) r).filterMap f := by
  by_cases hk : l.value.kind = k
  · subst hk
    obtain ⟨m, hread, hrest, hfound⟩ := l.findFrom_declaredLine hseen hr
    rw [hfound, List.filterMap_cons_some (hf l m r rfl hr hread hrest), declares?, if_pos rfl]
    rfl
  · rw [l.findFrom_declaredLine_of_ne (Ne.symm hk) hr hl, declares?, if_neg hk]
    rfl

/-- **What a scan reads off a program are its lines of the scan's kind.** -/
theorem filterMap_findAll_declaringProgram (hf : Reads language k f)
    (lines : List (DeclaredLine language))
    (hlines : ∀ l ∈ lines, ∀ body, l.value = .string body → '=' ∉ body) :
    ((language.declaration k).findAll (declaringProgram lines)).filterMap f =
      lines.filterMap (·.declares? k) := by
  have hrun : ∀ (lines : List (DeclaredLine language)) (l : DeclaredLine language) (seen : Text),
      (∀ l' ∈ l :: lines, ∀ body, l'.value = .string body → '=' ∉ body) →
        seen.head?.all (· == '\n') →
          ((language.declaration k).findFrom seen
              (l.text ++ lines.flatMap fun l => '\n' :: l.text)).filterMap f =
            (l :: lines).filterMap (·.declares? k) := by
    intro lines
    induction lines with
    | nil =>
      intro l seen hlines hseen
      rw [List.flatMap_nil, filterMap_findFrom_declaredLine hf l (hlines l (by simp)) hseen
        (by simp [Follows])]
      cases h : l.declares? k <;> simp [h]
    | cons m lines ih =>
      intro l seen hlines hseen
      -- the next line begins behind the line feed
      have hnext := ih m ('\n' :: (l.text.reverse ++ seen))
        (fun l' hl' => hlines l' (List.mem_cons_of_mem l hl')) rfl
      rw [List.flatMap_cons, List.cons_append, filterMap_findFrom_declaredLine hf l
        (hlines l (by simp)) hseen (by simp [Follows]), findFrom_cons_of_none matchAt?_lineFeed, hnext]
      cases h : l.declares? k <;> simp [h]
  cases lines with
  | nil => rfl
  | cons l lines =>
    rw [declaringProgram, List.map_cons, Text.intercalate_cons, List.flatMap_map]
    exact hrun lines l [] hlines rfl

theorem goesOnCalculating_ending (l : DeclaredLine language) (hr : Follows r) :
    Declaration.goesOnCalculating (l.ending ++ r) = false := by
  have hall : ∀ t : Text, (∀ c ∈ t, c = ';' ∨ isWhiteSpace c) →
      Declaration.goesOnCalculating (t ++ r) = false := by
    intro t ht
    unfold Declaration.goesOnCalculating
    induction t with
    | nil =>
      cases r with
      | nil => rfl
      | cons c r =>
        obtain rfl : c = '\n' := hr c (by simp)
        rfl
    | cons c t ih =>
      -- blanks are passed over, and any other sign decides
      by_cases hc : isIndent c
      · rw [List.cons_append, List.dropWhile_cons_of_pos (by exact hc)]
        exact ih fun d hd => ht d (by simp [hd])
      · have hne : (c == '+' || c == '-' || c == '*' || c == '/') = false := by
          rcases ht c (by simp) with rfl | hws
          · rfl
          · have hne : ∀ d, isWhiteSpace d = false → (c == d) = false := by
              intro d hd
              rw [beq_eq_false_iff_ne]
              rintro rfl
              rw [hd] at hws
              cases hws
            simp [hne '+' (by decide), hne '-' (by decide), hne '*' (by decide), hne '/' (by decide)]
        rw [List.cons_append, List.dropWhile_cons_of_neg (by exact hc)]
        exact hne
  exact hall l.ending l.ending_plain

theorem declarations_declaringProgram (lines : List (DeclaredLine language))
    (hlines : ∀ l ∈ lines, ∀ body, l.value = .string body → '=' ∉ body) :
    Declaration.strings language (declaringProgram lines) = lines.filterMap (·.declares? .string) ∧
      Declaration.numbers language (declaringProgram lines) = lines.filterMap (·.declares? .number) ∧
        Declaration.truths language (declaringProgram lines) =
          lines.filterMap (·.declares? .truth) := by
  have hstring : Reads language .string Declaration.ofMatch? := by
    intro l m r hk _ h _
    rw [h, DeclaredValue.read_of_ne language (by simp [hk])]
  have hnumber : Reads language .number fun m =>
      if !Declaration.goesOnCalculating m.rest then Declaration.ofMatch? m else none := by
    intro l m r hk hr h hrest
    have hread := DeclaredValue.read_of_ne language (v := l.value) (by simp [hk])
    simp [hrest, goesOnCalculating_ending l hr, h, hread]
  have htruth : Reads language .truth fun m =>
      (Declaration.ofMatch? m).map (Prod.map id Text.toLower) := by
    intro l m r hk _ h _
    simp [h, DeclaredValue.toLower_read language hk]
  refine ⟨filterMap_findAll_declaringProgram hstring lines hlines, ?_, ?_⟩
  · rw [Declaration.numbers, List.filterMap_filter]
    exact filterMap_findAll_declaringProgram hnumber lines hlines
  · rw [Declaration.truths, List.map_filterMap]
    exact filterMap_findAll_declaringProgram htruth lines hlines

/-- Looking a name up among what lines of a kind declare finds the first value of the kind that they
give it. -/
theorem lookup_filterMap_declares? (lines : List (DeclaredLine language)) (name : Text) :
    (lines.filterMap (·.declares? k)).lookup name = (valuesOf name k lines).head? := by
  unfold valuesOf
  induction lines with
  | nil => rfl
  | cons l lines ih =>
    by_cases hk : l.value.kind = k
    · by_cases hn : l.name = name
      · simp [declares?, gives?, hk, hn]
      · have hne : (name == l.name) = false := beq_eq_false_iff_ne.2 (Ne.symm hn)
        simpa [declares?, gives?, hk, hn, List.lookup_cons, hne] using ih
    · simpa [declares?, gives?, hk] using ih

/-- Looking it up from the end finds the last one. -/
theorem lookup_reverse_filterMap_declares? (lines : List (DeclaredLine language)) (name : Text) :
    (lines.filterMap (·.declares? k)).reverse.lookup name = (valuesOf name k lines).getLast? := by
  rw [← List.filterMap_reverse, lookup_filterMap_declares?, valuesOf, List.filterMap_reverse,
    List.head?_reverse]
  rfl

theorem exists_valuesOf_ne_nil_iff (name : Text) (lines : List (DeclaredLine language)) :
    (∃ k, valuesOf name k lines ≠ []) ↔ ∃ l ∈ lines, l.name = name := by
  constructor
  · rintro ⟨k, h⟩
    obtain ⟨v, hv⟩ := List.exists_mem_of_ne_nil _ h
    obtain ⟨l, hl, hv⟩ := List.mem_filterMap.1 hv
    unfold gives? at hv
    split at hv
    · rename_i hname
      exact ⟨l, hl, hname.1⟩
    · cases hv
  · rintro ⟨l, hl, rfl⟩
    refine ⟨l.value.kind, List.ne_nil_of_mem (a := l.value.bound) ?_⟩
    exact List.mem_filterMap.2 ⟨l, hl, if_pos ⟨rfl, rfl⟩⟩

/-- **A program of declarations binds exactly the declared names**, each to the body of its last string
if it has one, else to its first numeral, and else to its first truth value in small letters. -/
theorem get?_declared_declaringProgram (lines : List (DeclaredLine language))
    (hlines : ∀ l ∈ lines, ∀ body, l.value = .string body → '=' ∉ body) (name : Text) :
    ((declared language (declaringProgram lines)).contains name ↔ ∃ l ∈ lines, l.name = name) ∧
      (declared language (declaringProgram lines)).get? name =
        (((valuesOf name .string lines).getLast? <|> (valuesOf name .number lines).head?) <|>
          (valuesOf name .truth lines).head?) := by
  obtain ⟨hstring, hnumber, htruth⟩ := declarations_declaringProgram lines hlines
  have hget := get?_declared language (declaringProgram lines) name
  rw [hstring, hnumber, htruth, lookup_reverse_filterMap_declares?, lookup_filterMap_declares?,
    lookup_filterMap_declares?] at hget
  refine ⟨?_, hget⟩
  rw [Bindings.contains_eq_isSome_get?, hget, ← exists_valuesOf_ne_nil_iff]
  constructor
  · intro h
    by_contra hall
    have hnil : ∀ k, valuesOf name k lines = [] := by simpa using hall
    simp [hnil] at h
  · rintro ⟨k, hk⟩
    have hlast := List.getLast?_isSome.2 hk
    have hhead := List.isSome_head?.2 hk
    cases k <;> grind

/-- A name that is a keyword, a type, and a string that spells the beginning of a declaration. -/
theorem get?_declared_declaringProgram_kotlin :
    let blank : Text := [' ']
    let number : DeclaredLine .kotlin :=
      ⟨"val ".toList, "val".toList, ": Int ".toList, blank, .number "-5".toList, [],
        ⟨"val", by decide, blank, by decide, by decide, rfl⟩, by decide,
        Or.inr ⟨rfl, [], blank, "Int".toList, blank, by decide, by decide, by decide, by decide,
          by decide, rfl⟩, by decide, by decide, by decide⟩
    let truth : DeclaredLine .kotlin :=
      ⟨"var ".toList, "x".toList, blank, blank, .truth true, [],
        ⟨"var", by decide, blank, by decide, by decide, rfl⟩, by decide, Or.inl (by decide),
        by decide, by decide, by decide⟩
    let string : DeclaredLine .kotlin :=
      ⟨"var ".toList, "x".toList, blank, blank, .string "val y ".toList, [],
        ⟨"var", by decide, blank, by decide, by decide, rfl⟩, by decide, Or.inl (by decide),
        by decide, by decide, by decide⟩
    let lines := [number, truth, string]
    (∀ l ∈ lines, ∀ body, l.value = .string body → '=' ∉ body) ∧
      (declared .kotlin (declaringProgram lines)).get? "x".toList = some "val y ".toList ∧
      (declared .kotlin (declaringProgram lines)).get? "val".toList = some "-5".toList := by
  intro blank number truth string lines
  have hlines : ∀ l ∈ lines, ∀ body, l.value = .string body → '=' ∉ body := by
    simp only [lines, List.forall_mem_cons]
    refine ⟨fun _ h => (by cases h), fun _ h => (by cases h), fun body h => ?_, by simp⟩
    obtain rfl := DeclaredValue.string.inj h
    decide
  exact ⟨hlines, (get?_declared_declaringProgram lines hlines _).2,
    (get?_declared_declaringProgram lines hlines _).2⟩

end DryRun
