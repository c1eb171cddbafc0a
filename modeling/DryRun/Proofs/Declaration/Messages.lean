import DryRun.Proofs.Comment.Scan
import DryRun.Proofs.Declaration.Extent

/-!
# Declarations in printed messages

A printing program is a list of calls that each print one literal and end the line, every call on a
line of its own.  The scans for declarations read the literals as well.  In Python they find nothing
there (`declarations_program_python`), because a declaration begins a line; in the other languages
they find exactly what they would find in the messages themselves (`strings_program`,
`numbers_program`, `truths_program`).
-/

namespace DryRun

open Pattern Cursor Unicode

/-! ### Printing programs -/

/-- The usual ways to call what prints a line. -/
def Language.lineCalls : Language → List String
  | .kotlin => ["println"]
  | .java => ["System.out.println", "System.err.println"]
  | .python => ["print"]
  | .javaScript => ["console.log", "console.info", "console.warn", "console.error", "console.debug"]
  | .swift => ["print", "debugPrint"]

/-- A call that prints a plain literal in double quotes and ends the line. -/
structure PrintedLine (language : Language) where
  callee : String
  /-- What stands between the quotes. -/
  message : Text
  /-- What stands behind the call: semicolons and white space. -/
  ending : Text
  callee_mem : callee ∈ language.lineCalls
  message_plain : '"' ∉ message ∧ '\\' ∉ message ∧ '\n' ∉ message
  ending_plain : ∀ c ∈ ending, c = ';' ∨ isWhiteSpace c

namespace PrintedLine

variable {language : Language}

/-- The line up to the message. -/
def opening (l : PrintedLine language) : Text := l.callee.toList ++ ['(', '"']

/-- The line behind the message and its closing quote. -/
def closing (l : PrintedLine language) : Text := ')' :: l.ending

def text (l : PrintedLine language) : Text := l.opening ++ (l.message ++ '"' :: l.closing)

theorem text_append (l : PrintedLine language) (t : Text) :
    l.text ++ t = l.opening ++ (l.message ++ '"' :: (l.closing ++ t)) := by
  simp [PrintedLine.text]

/-- What stands behind a line that others follow. -/
def followed (lines : List (PrintedLine language)) : Text := lines.flatMap fun l => '\n' :: l.text

end PrintedLine

open PrintedLine

/-- The program that consists of these lines. -/
def printingProgram {language : Language} (lines : List (PrintedLine language)) : Text :=
  List.intercalate ['\n'] (lines.map PrintedLine.text)

variable {language : Language}

theorem printingProgram_cons (l : PrintedLine language) (lines : List (PrintedLine language)) :
    printingProgram (l :: lines) = l.text ++ followed lines := by
  rw [printingProgram, List.map_cons, Text.intercalate_cons, List.flatMap_map]
  rfl

/-! ### A line's opening and closing -/

namespace PrintedLine

theorem callee_plain (language : Language) : ∀ s ∈ language.lineCalls, ∀ c ∈ s.toList,
    isWhiteSpace c = false ∧ c ≠ '=' := by
  have h : language.lineCalls.all fun s => s.toList.all fun c => !isWhiteSpace c && c != '=' := by
    cases language <;> decide
  simpa using h

/-- What the line's closing consists of begins no word, no quote and no comment. -/
theorem closing_plain (l : PrintedLine language) : ∀ c ∈ l.closing,
    c.isAlpha = false ∧ c ≠ '=' ∧ Comment.isPlain c := by
  intro c hc
  rcases List.mem_cons.1 hc with rfl | hc
  · decide
  · rcases l.ending_plain c hc with rfl | hws
    · decide
    · refine ⟨isAlpha_eq_false_of_isWhiteSpace hws, ?_, Comment.isPlain_of_isWhiteSpace hws⟩
      rintro rfl
      exact absurd hws (by decide)

theorem head_followed (lines : List (PrintedLine language)) :
    followed lines = [] ∨ ∃ t, followed lines = '\n' :: t := by
  cases lines with
  | nil => exact Or.inl rfl
  | cons l lines => exact Or.inr ⟨_, rfl⟩

theorem lineUnquoted_closing (l : PrintedLine language) (lines : List (PrintedLine language)) :
    LineUnquoted (l.closing ++ followed lines) := by
  have h : ∀ e : Text, ∀ c ∈ (e ++ followed lines).takeWhile (· != '\n'), c ∈ e := by
    intro e c hc
    induction e with
    | nil =>
      rcases head_followed lines with h | ⟨t, h⟩ <;> rw [List.nil_append, h] at hc <;> simp at hc
    | cons d e ih =>
      rw [List.cons_append, List.takeWhile_cons] at hc
      split at hc
      · rcases List.mem_cons.1 hc with rfl | hc
        · exact List.mem_cons_self
        · exact List.mem_cons_of_mem _ (ih hc)
      · cases hc
  exact fun c hc => Comment.isQuote_of_isPlain (l.closing_plain c (h _ c hc)).2.2

theorem suffix_opening (l : PrintedLine language) {u₁ u₂ : Text} (hu : l.opening = u₁ ++ u₂)
    (hu₂ : u₂ ≠ []) : ∃ s, u₂ = s ++ ['"'] ∧ ∀ c ∈ s, c ∈ l.callee.toList ∨ c = '(' := by
  obtain ⟨s, d, rfl⟩ : ∃ s d, u₂ = s ++ [d] := ⟨_, _, (List.dropLast_append_getLast hu₂).symm⟩
  have h : (l.callee.toList ++ ['(']) ++ ['"'] = (u₁ ++ s) ++ [d] := by
    simpa [opening] using hu
  obtain ⟨hs, hd⟩ := List.append_inj' h rfl
  refine ⟨s, by rw [hd], fun c hc => ?_⟩
  have : c ∈ l.callee.toList ++ ['('] := by
    rw [hs]
    exact List.mem_append_right _ hc
  simpa using this

theorem not_wordAndGap_opening (l : PrintedLine language) {u₁ u₂ r x y seen : Text}
    (hu : l.opening = u₁ ++ u₂) (hu₂ : u₂ ≠ []) (h : u₂ ++ r = x ++ y) : ¬ WordAndGap seen x := by
  rintro ⟨k, c, hk, hc, rfl⟩
  obtain ⟨s, rfl, hs⟩ := l.suffix_opening hu hu₂
  have hcs : c ∉ s := by
    intro hcs
    rcases hs c hcs with hcs | rfl
    · rw [(callee_plain language _ l.callee_mem c hcs).1] at hc
      cases hc
    · exact absurd hc (by decide)
  have hne : '"' ≠ c := by
    rintro rfl
    exact absurd hc (by decide)
  refine Text.append_ne_append_of_notMem (p := Char.isAlpha) (r := r) (y := y) rfl hne hcs hk.2 ?_
  simpa using h

theorem not_wordAndGap_closing {u₂ r x y seen : Text} (hu : ∀ c ∈ u₂, c.isAlpha = false)
    (hu₂ : u₂ ≠ []) (h : u₂ ++ r = x ++ y) : ¬ WordAndGap seen x := by
  rintro ⟨k, c, hk, hc, rfl⟩
  obtain ⟨d, u, rfl⟩ := List.exists_cons_of_ne_nil hu₂
  obtain ⟨d', k, rfl⟩ := List.exists_cons_of_ne_nil hk.1
  obtain ⟨rfl, -⟩ := List.cons_eq_cons.1 h
  have := hk.2 d (by simp)
  rw [hu d (by simp)] at this
  cases this

/-- No assignment begins in the line's opening. -/
theorem not_lineAssignment_opening (l : PrintedLine language) {u₁ u₂ r x y seen : Text}
    (hu : l.opening = u₁ ++ u₂) (hu₂ : u₂ ≠ []) (h : u₂ ++ r = x ++ y) :
    ¬ LineAssignment seen x := by
  rintro ⟨-, name, hname, rfl⟩
  obtain ⟨s, rfl, hs⟩ := l.suffix_opening hu hu₂
  have hes : '=' ∉ s := by
    intro hes
    rcases hs _ hes with hes | hes
    · exact (callee_plain language _ l.callee_mem _ hes).2 rfl
    · exact absurd hes (by decide)
  refine Text.append_ne_append_of_notMem (p := isAssigned) (c := '=') (d := '"') (r := r) (y := y)
    (by decide) (by decide) hes hname ?_
  simpa using h

/-- None begins in the message, because no line does. -/
theorem not_lineAssignment_message (l : PrintedLine language) {u₁ u₂ x seen : Text}
    (hu : l.message = u₁ ++ u₂) : ¬ LineAssignment (u₁.reverse ++ '"' :: seen) x := by
  rintro ⟨hline, -⟩
  cases hr : u₁.reverse with
  | nil =>
    rw [hr] at hline
    exact absurd hline (by simp)
  | cons c t =>
    have hc : c ∈ u₁ := by
      rw [← List.mem_reverse, hr]
      exact List.mem_cons_self
    have hn : c = '\n' := by simpa [hr] using hline
    subst hn
    exact l.message_plain.2.2 (by rw [hu]; exact List.mem_append_left _ hc)

/-- None begins in the closing. -/
theorem not_lineAssignment_closing {u₂ x y seen : Text} (lines : List (PrintedLine language))
    (hu : '=' ∉ u₂) (h : u₂ ++ followed lines = x ++ y) : ¬ LineAssignment seen x := by
  rintro ⟨-, name, hname, rfl⟩
  rw [List.append_assoc, List.singleton_append] at h
  rcases head_followed lines with hf | ⟨t, hf⟩
  · rw [hf, List.append_nil] at h
    exact hu (by simp [h])
  · rw [hf] at h
    exact Text.append_ne_append_of_notMem (by decide) (by decide) hu hname h

end PrintedLine

/-! ### Searching a printing program -/

/-- What the search for a declaration relies on in a language other than Python: the declaration
begins with a keyword, and ends in the message if it begins there. -/
structure InMessages (p : Pattern) : Prop where
  begins : Begins WordAndGap p
  isLocal : ∀ {before after : Text}, before.head?.any isWord = false → LineUnquoted after →
    Local '"' before after p

variable {p : Pattern}

theorem InMessages.ne_nil (hp : InMessages p) {seen w rest : Text} {g : List (Nat × Span)}
    (h : Takes p seen w rest [] g) : w ≠ [] := by
  obtain ⟨u, v, rfl, k, c, -, -, rfl⟩ := hp.begins _ _ _ _ _ h
  simp

/-- A search finds in a line what it would find in its message, and goes on behind the line. -/
theorem InMessages.findFrom_text (hp : InMessages p) (l : PrintedLine language)
    (lines : List (PrintedLine language)) (seen : Text) :
    p.findFrom seen (l.text ++ followed lines) =
      (p.findAll l.message).map
        (·.within (l.opening.reverse ++ seen) ('"' :: (l.closing ++ followed lines))) ++
        p.findFrom (l.text.reverse ++ seen) (followed lines) := by
  have hopen : p.findFrom seen (l.opening ++ (l.message ++ '"' :: (l.closing ++ followed lines))) =
      p.findFrom (l.opening.reverse ++ seen)
        (l.message ++ '"' :: (l.closing ++ followed lines)) :=
    hp.begins.findFrom_append fun u₁ u₂ hu hu₂ x y h => l.not_wordAndGap_opening hu hu₂ h
  -- in the message the quote behind it bounds every match
  have hlocal : Local '"' (l.opening.reverse ++ seen) (l.closing ++ followed lines) p :=
    hp.isLocal (by simp [opening]; decide) (l.lineUnquoted_closing lines)
  have hmessage := findFrom_append_within hlocal hp.ne_nil l.message_plain.1
  have hclose : p.findFrom (l.message.reverse ++ (l.opening.reverse ++ seen))
      (('"' :: l.closing) ++ followed lines) =
        p.findFrom (('"' :: l.closing).reverse ++ (l.message.reverse ++ (l.opening.reverse ++ seen)))
          (followed lines) := by
    refine hp.begins.findFrom_append fun u₁ u₂ hu hu₂ x y h => ?_
    refine not_wordAndGap_closing (fun c hc => ?_) hu₂ h
    have hc : c ∈ '"' :: l.closing := by
      rw [hu]
      exact List.mem_append_right _ hc
    rcases List.mem_cons.1 hc with rfl | hc
    · rfl
    · exact (l.closing_plain c hc).1
  rw [l.text_append, hopen, hmessage]
  congr 1
  rw [← List.cons_append, hclose]
  simp [PrintedLine.text]

/-- Behind a line the search goes on with the next one. -/
theorem InMessages.findFrom_followed (hp : InMessages p) (l : PrintedLine language)
    (lines : List (PrintedLine language)) (seen : Text) :
    p.findFrom seen (followed (l :: lines)) =
      p.findFrom ('\n' :: seen) (l.text ++ followed lines) := by
  refine findFrom_cons_of_none (hp.begins.matchAt?_eq_none fun x y h => ?_)
  have hbreak : ∀ c ∈ ['\n'], c.isAlpha = false := by simp
  exact not_wordAndGap_closing hbreak (by simp) h

/-- **What is read off the matches in a printing program is what is read off those in its
messages**, for a reading that does not depend on where a message stands. -/
theorem InMessages.filterMap_findAll (hp : InMessages p) {α : Type} {f : Match → Option α}
    (hf : ∀ {seen w rest g before after}, Takes p seen w rest [] g →
      f ((matchOf seen w rest g).within before ('"' :: after)) = f (matchOf seen w rest g))
    (lines : List (PrintedLine language)) :
    (p.findAll (printingProgram lines)).filterMap f =
      lines.flatMap fun l => (p.findAll l.message).filterMap f := by
  have hmessage : ∀ (l : PrintedLine language) (before after : Text),
      ((p.findAll l.message).map (·.within before ('"' :: after))).filterMap f =
        (p.findAll l.message).filterMap f := by
    intro l before after
    rw [List.filterMap_map]
    refine List.filterMap_congr fun m hm => ?_
    obtain ⟨u, w, rest, g, -, rfl, hw⟩ := takes_of_mem_findAll hm
    exact hf hw
  have hlines : ∀ (lines : List (PrintedLine language)) (l : PrintedLine language) (seen : Text),
      (p.findFrom seen (l.text ++ followed lines)).filterMap f =
        (l :: lines).flatMap fun l => (p.findAll l.message).filterMap f := by
    intro lines
    induction lines with
    | nil =>
      intro l seen
      rw [hp.findFrom_text, List.filterMap_append, hmessage]
      rfl
    | cons m lines ih =>
      intro l seen
      rw [hp.findFrom_text, List.filterMap_append, hmessage, hp.findFrom_followed, ih m]
      rfl
  cases lines with
  | nil => rfl
  | cons l lines =>
    rw [printingProgram_cons]
    exact hlines lines l []

/-- Where every declaration is an assignment that begins a line, a printed line has none. -/
theorem findFrom_text_of_assigns (hp : Begins LineAssignment p) (l : PrintedLine language)
    (lines : List (PrintedLine language)) (seen : Text) :
    p.findFrom seen (l.text ++ followed lines) =
      p.findFrom (l.text.reverse ++ seen) (followed lines) := by
  -- opening, message and closing one after the other, each without a declaration
  obtain ⟨before, hbefore⟩ : ∃ before, l.opening.reverse ++ seen = '"' :: before :=
    ⟨'(' :: (l.callee.toList.reverse ++ seen), by simp [opening]⟩
  have hopen : p.findFrom seen (l.opening ++ (l.message ++ '"' :: (l.closing ++ followed lines))) =
      p.findFrom (l.opening.reverse ++ seen)
        (l.message ++ '"' :: (l.closing ++ followed lines)) :=
    hp.findFrom_append fun u₁ u₂ hu hu₂ x y h => l.not_lineAssignment_opening hu hu₂ h
  have hmessage : p.findFrom ('"' :: before)
      (l.message ++ '"' :: (l.closing ++ followed lines)) =
        p.findFrom (l.message.reverse ++ '"' :: before) ('"' :: (l.closing ++ followed lines)) :=
    hp.findFrom_append fun u₁ u₂ hu _ x y _ => l.not_lineAssignment_message hu
  have hclose : p.findFrom (l.message.reverse ++ '"' :: before)
      (('"' :: l.closing) ++ followed lines) =
        p.findFrom (('"' :: l.closing).reverse ++ (l.message.reverse ++ '"' :: before))
          (followed lines) := by
    refine hp.findFrom_append fun u₁ u₂ hu _ x y h => ?_
    refine not_lineAssignment_closing lines (fun he => ?_) h
    have he : '=' ∈ '"' :: l.closing := by
      rw [hu]
      exact List.mem_append_right _ he
    rcases List.mem_cons.1 he with he | he
    · exact absurd he (by decide)
    · exact (l.closing_plain _ he).2.1 rfl
  rw [l.text_append, hopen, hbefore, hmessage, ← List.cons_append, hclose, ← hbefore]
  simp [PrintedLine.text]

/-- Nor has a whole printing program. -/
theorem findAll_program_of_assigns (hp : Begins LineAssignment p)
    (lines : List (PrintedLine language)) : p.findAll (printingProgram lines) = [] := by
  have hlines : ∀ (lines : List (PrintedLine language)) (l : PrintedLine language) (seen : Text),
      p.findFrom seen (l.text ++ followed lines) = [] := by
    intro lines
    induction lines with
    | nil =>
      intro l seen
      rw [findFrom_text_of_assigns hp]
      rfl
    | cons m lines ih =>
      intro l seen
      have hbreak : ∀ seen, p.findFrom seen (followed (m :: lines)) =
          p.findFrom ('\n' :: seen) (m.text ++ followed lines) := fun seen =>
        findFrom_cons_of_none (hp.matchAt?_eq_none fun x y h =>
          not_lineAssignment_closing (m :: lines) List.not_mem_nil h)
      rw [findFrom_text_of_assigns hp, hbreak, ih m]
  cases lines with
  | nil => rfl
  | cons l lines =>
    rw [printingProgram_cons]
    exact hlines lines l []

/-! ### What a printing program declares -/

open DeclarationSyntax

theorem inMessages_of_rejects (hp : Begins WordAndGap p) (hr : p.rejects '"') : InMessages p :=
  ⟨hp, fun hb _ => local_of_rejects hr hb (by decide)⟩

theorem inMessages_strings (hp : Begins WordAndGap p) (hr : p.rejects '"') (single : Bool) :
    InMessages (p ++ stringValue single) := by
  refine ⟨hp.append _, fun hb ha => (local_of_rejects hr hb (by decide)).append ?_⟩
  cases single with
  | false => exact local_quoted (by decide) ha 2
  | true => exact (local_quoted (by decide) ha 2).alt (local_quoted (by decide) ha 3)

/-- Except in Python every declaration begins with a keyword. -/
theorem inMessages_declarations (hl : language ≠ .python) :
    InMessages language.declarations.strings ∧ InMessages language.declarations.numbers ∧
      InMessages language.declarations.truths := by
  have hkeyword : ∀ keywords, keywords ≠ [] → (∀ s ∈ keywords, IsLetters s.toList) →
      Begins WordAndGap (keywordOpening keywords) := fun _ => begins_keywordOpening
  have htyped : ∀ keywords, keywords ≠ [] → (∀ s ∈ keywords, IsLetters s.toList) →
      Begins WordAndGap (typedOpening keywords) := fun _ => begins_typedOpening
  cases language with
  | python => exact absurd rfl hl
  | kotlin =>
    have h := htyped ["val", "var"] (by decide) (by decide)
    exact ⟨inMessages_strings h (by decide) _, inMessages_of_rejects (h.append _) (by decide),
      inMessages_of_rejects (h.append _) (by decide)⟩
  | java =>
    exact ⟨inMessages_strings (hkeyword _ (by decide) (by decide)) (by decide) _,
      inMessages_of_rejects ((hkeyword _ (by decide) (by decide)).append _) (by decide),
      inMessages_of_rejects ((hkeyword _ (by decide) (by decide)).append _) (by decide)⟩
  | javaScript =>
    have h := hkeyword ["const", "let", "var"] (by decide) (by decide)
    exact ⟨inMessages_strings h (by decide) _, inMessages_of_rejects (h.append _) (by decide),
      inMessages_of_rejects (h.append _) (by decide)⟩
  | swift =>
    have h := htyped ["let", "var"] (by decide) (by decide)
    exact ⟨inMessages_strings h (by decide) _, inMessages_of_rejects (h.append _) (by decide),
      inMessages_of_rejects (h.append _) (by decide)⟩

variable {before after seen w rest : Text} {g : List (Nat × Span)}

theorem ofMatch?_within (h : Takes p seen w rest [] g) :
    Declaration.ofMatch? ((matchOf seen w rest g).within before after) =
      Declaration.ofMatch? (matchOf seen w rest g) := by
  simp only [Declaration.ofMatch?, group?_within h]

theorem goesOnCalculating_append (t : Text) :
    Declaration.goesOnCalculating (t ++ '"' :: after) = Declaration.goesOnCalculating t := by
  simp only [Declaration.goesOnCalculating, List.dropWhile_append]
  cases h : t.dropWhile fun c => c == ' ' || c == '\t' with
  | nil => simp
  | cons c u => simp

theorem strings_program (hl : language ≠ .python) (lines : List (PrintedLine language)) :
    Declaration.strings language (printingProgram lines) =
      lines.flatMap fun l => Declaration.strings language l.message :=
  (inMessages_declarations hl).1.filterMap_findAll ofMatch?_within lines

theorem numbers_program (hl : language ≠ .python) (lines : List (PrintedLine language)) :
    Declaration.numbers language (printingProgram lines) =
      lines.flatMap fun l => Declaration.numbers language l.message := by
  simp only [Declaration.numbers, List.filterMap_filter]
  refine (inMessages_declarations hl).2.1.filterMap_findAll (fun {seen w rest g _ after} h => ?_) lines
  have hrest : ∀ before, ((matchOf seen w rest g).within before ('"' :: after)).rest =
      rest ++ '"' :: after := fun _ => rfl
  have hrest' : (matchOf seen w rest g).rest = rest := rfl
  simp only [ofMatch?_within h, hrest, hrest', goesOnCalculating_append]

theorem truths_program (hl : language ≠ .python) (lines : List (PrintedLine language)) :
    Declaration.truths language (printingProgram lines) =
      lines.flatMap fun l => Declaration.truths language l.message := by
  rw [Declaration.truths, (inMessages_declarations hl).2.2.filterMap_findAll ofMatch?_within lines,
    List.map_flatMap]
  rfl

theorem declarations_program_python (lines : List (PrintedLine .python)) :
    Declaration.strings .python (printingProgram lines) = [] ∧
      Declaration.numbers .python (printingProgram lines) = [] ∧
      Declaration.truths .python (printingProgram lines) = [] := by
  have h : ∀ value, (lineOpening ++ value).findAll (printingProgram lines) = [] := fun value =>
    findAll_program_of_assigns (begins_lineOpening.append value) lines
  refine ⟨?_, ?_, ?_⟩
  · exact congrArg (List.filterMap _) (h _)
  · exact congrArg (fun l => List.filterMap _ (List.filter _ l)) (h _)
  · exact congrArg (fun l => List.map _ (List.filterMap _ l)) (h _)

end DryRun
