import Mathlib.Data.List.Forall2
import Mathlib.Data.List.Induction
import DryRun.Settings
import DryRun.Proofs.Text

/-!
# Which lines of a file of settings count

A line is ignored, makes one change, or is reported.  Reading goes line by line (`readLines_cons`), so
the settings are what the changes come to and the reports are the lines that cannot be used, in order
(`readLines_eq`).  From this, each setting has the value of the last line that gives it one, and a line
that cannot be used might as well be blank (`ofText_lastValues_and_errors`).
-/

namespace DryRun

namespace Settings

/-! ### What a line says -/

/-- Whether a line is blank or a comment. -/
def IsIgnored (line : Text) : Prop :=
  line.trim = [] ∨ line.trim.head? = some '#' ∨ line.trim.head? = some ';'

instance (line : Text) : Decidable (IsIgnored line) :=
  inferInstanceAs (Decidable (_ ∨ _ ∨ _))

/-- The key and the value of a line, on the two sides of the first `=`. -/
def pair? (line : Text) : Option (Text × Text) :=
  if IsIgnored line ∨ '=' ∉ line.trim then none
  else some ((line.trim.before '=').trim, withoutQuotes (line.trim.after '=').trim)

/-- The value that a line gives to the setting with one of these keys, in large or small letters. -/
def valueIn {ε α : Type} (keys : List Text) (read : Text → Except ε α) (line : Text) : Option α :=
  (pair? line).bind fun (key, value) => if key.toLower ∈ keys then (read value).toOption else none

/-- Why a line that is neither blank nor a comment cannot be used: it has no `=`, or its key and value
are refused. -/
def Rejects (line : Text) (cause : SettingError) : Prop :=
  ¬ IsIgnored line ∧ (('=' ∉ line.trim ∧ cause = .noValue line.trim) ∨
    ∃ key value, pair? line = some (key, value) ∧ ∀ s : Settings, s.set key value = .error cause)

theorem readLine_eq (line : Text) : readLine line =
    if IsIgnored line then .ok none
    else match pair? line with
      | none => .error (.noValue line.trim)
      | some (key, value) => some <$> Setting.ofPair key value := by
  cases h : line.trim with
  | nil => simp [readLine, IsIgnored, h]
  | cons c rest =>
    by_cases hc : c = '#' ∨ c = ';'
    · simp [readLine, IsIgnored, h, hc]
    · by_cases hmem : '=' ∈ c :: rest
      · simp [readLine, IsIgnored, pair?, h, hc, Text.splitOnce_eq, hmem]
      · simp [readLine, IsIgnored, pair?, h, hc, Text.splitOnce_eq, hmem]

theorem map_eq_error_iff {ε α β : Type} {f : α → β} {x : Except ε α} {e : ε} :
    f <$> x = .error e ↔ x = .error e := by
  cases x <;> simp

theorem forall_set_eq_error_iff {key value : Text} {cause : SettingError} :
    (∀ s : Settings, s.set key value = .error cause) ↔ Setting.ofPair key value = .error cause :=
  ⟨fun h => map_eq_error_iff.mp (h {}), fun h _ => map_eq_error_iff.mpr h⟩

theorem readLine_eq_error_iff {line : Text} {cause : SettingError} :
    readLine line = .error cause ↔ Rejects line cause := by
  rw [readLine_eq, Rejects]
  by_cases hignored : IsIgnored line
  · simp [hignored]
  · by_cases hmem : '=' ∈ line.trim
    · simp [hignored, hmem, pair?, forall_set_eq_error_iff, map_eq_error_iff]
    · simp [hignored, hmem, pair?, eq_comm]

theorem readLine_of_isBlank {line : Text} (h : line.isBlank) : readLine line = .ok none := by
  rw [readLine, Text.trim_of_isBlank h]

/-! ### One line, and the lines -/

/-- The change that a line makes. -/
def change? (line : Text) : Option Setting := (readLine line).toOption.join

/-- What is reported about the line with the number `n`. -/
def errorAt? (line : Text) (n : Nat) : Option LineError :=
  match readLine line with
  | .ok _ => none
  | .error cause => some ⟨n, cause⟩

/-- **A line makes its change or is reported**, and neither if it is ignored. -/
theorem readLines_cons (s : Settings) (n : Nat) (line : Text) (rest : List Text) :
    readLines s n (line :: rest) =
      ((readLines ((change? line).elim s (Setting.apply s)) (n + 1) rest).1,
        (errorAt? line n).toList ++ (readLines ((change? line).elim s (Setting.apply s)) (n + 1) rest).2) := by
  rw [readLines, change?, errorAt?]
  cases readLine line with
  | error cause => rfl
  | ok change => cases change <;> rfl

/-- The settings are what the changes come to, and the reports stand in the order of the lines. -/
theorem readLines_eq (s : Settings) (n : Nat) (lines : List Text) : readLines s n lines =
    ((lines.filterMap change?).foldl Setting.apply s,
      (lines.zipIdx n).filterMap fun (line, n) => errorAt? line n) := by
  -- the settings so far and the number change from line to line
  induction lines generalizing s n with
  | nil => rfl
  | cons line rest ih =>
    rw [readLines_cons, ih]
    cases hchange : change? line <;> cases herror : errorAt? line n <;> simp [hchange, herror]

/-! ### The last value of each setting -/

end Settings

namespace Setting

def language? : Setting → Option Language
  | language value => some value
  | _ => none

def timing? : Setting → Option Bool
  | timing value => some value
  | _ => none

def color? : Setting → Option Coloring
  | color value => some value
  | _ => none

def format? : Setting → Option ReportFormat
  | format value => some value
  | _ => none

/-- **Of the changes to one setting the last one counts.** -/
theorem foldl_apply (changes : List Setting) : changes.foldl apply {} =
    { language := (changes.filterMap language?).getLast?
      timing := (changes.filterMap timing?).getLast?.getD false
      color := (changes.filterMap color?).getLast?.getD .auto
      format := (changes.filterMap format?).getLast?.getD .text } := by
  -- on the last change, which decides its own setting and no other
  induction changes using List.reverseRecOn with
  | nil => rfl
  | append_singleton changes change ih =>
    rw [List.foldl_append, ih]
    cases change <;> simp [apply, language?, timing?, color?, format?]

/-! A key and a value change a setting exactly if the key is one of its keys and the value can be
read. -/

theorem language?_ofPair (key value : Text) : (ofPair key value).toOption.bind language? =
    if key.toLower ∈ ["language".toList, "lang".toList] then (Language.ofName value).toOption
    else none := by
  simp only [ofPair, List.mem_cons, List.not_mem_nil, or_false]
  split_ifs
  · cases Language.ofName value <;> rfl
  · cases flagOfName value <;> rfl
  · cases Coloring.ofName value <;> rfl
  · cases ReportFormat.ofName value <;> rfl
  · rfl

theorem timing?_ofPair (key value : Text) : (ofPair key value).toOption.bind timing? =
    if key.toLower ∈ ["timing".toList] then (flagOfName value).toOption else none := by
  simp only [ofPair, List.mem_cons, List.not_mem_nil, or_false]
  -- the keys are tried one after another, and no two settings share one
  split_ifs with hlanguage htiming
  · exact absurd (htiming ▸ hlanguage) (by decide)
  · cases Language.ofName value <;> rfl
  · cases flagOfName value <;> rfl
  · cases Coloring.ofName value <;> rfl
  · cases ReportFormat.ofName value <;> rfl
  · rfl

theorem color?_ofPair (key value : Text) : (ofPair key value).toOption.bind color? =
    if key.toLower ∈ ["color".toList, "colour".toList] then (Coloring.ofName value).toOption
    else none := by
  simp only [ofPair, List.mem_cons, List.not_mem_nil, or_false]
  split_ifs with hlanguage hcolor htiming hcolor
  · rcases hcolor with hkey | hkey <;> exact absurd (hkey ▸ hlanguage) (by decide)
  · cases Language.ofName value <;> rfl
  · rcases hcolor with hkey | hkey <;> exact absurd (hkey ▸ htiming) (by decide)
  · cases flagOfName value <;> rfl
  · cases Coloring.ofName value <;> rfl
  · cases ReportFormat.ofName value <;> rfl
  · rfl

theorem format?_ofPair (key value : Text) : (ofPair key value).toOption.bind format? =
    if key.toLower ∈ ["format".toList] then (ReportFormat.ofName value).toOption else none := by
  simp only [ofPair, List.mem_cons, List.not_mem_nil, or_false]
  split_ifs with hlanguage hformat htiming hformat hcolor hformat
  · exact absurd (hformat ▸ hlanguage) (by decide)
  · cases Language.ofName value <;> rfl
  · exact absurd (hformat ▸ htiming) (by decide)
  · cases flagOfName value <;> rfl
  · exact absurd (hformat ▸ hcolor) (by decide)
  · cases Coloring.ofName value <;> rfl
  · cases ReportFormat.ofName value <;> rfl
  · rfl

end Setting

namespace Settings

theorem valueIn_eq {ε α : Type} {keys : List Text} {read : Text → Except ε α} {get : Setting → Option α}
    (h : ∀ key value, (Setting.ofPair key value).toOption.bind get =
      if key.toLower ∈ keys then (read value).toOption else none) (line : Text) :
    (change? line).bind get = valueIn keys read line := by
  rw [change?, readLine_eq, valueIn]
  by_cases hignored : IsIgnored line
  · simp [hignored, pair?, Except.toOption]
  · cases hpair : pair? line with
    | none => simp [hignored, Except.toOption]
    | some pair =>
      obtain ⟨key, value⟩ := pair
      rw [if_neg hignored]
      refine Eq.trans ?_ (h key value)
      dsimp only
      cases Setting.ofPair key value <;> rfl

/-- **Each setting has the value of the last line that gives it one.** -/
theorem foldl_apply_filterMap_change? (lines : List Text) :
    (lines.filterMap change?).foldl Setting.apply {} =
      { language := (lines.filterMap (valueIn ["language".toList, "lang".toList] Language.ofName)).getLast?
        timing := (lines.filterMap (valueIn ["timing".toList] flagOfName)).getLast?.getD false
        color := (lines.filterMap
          (valueIn ["color".toList, "colour".toList] Coloring.ofName)).getLast?.getD .auto
        format := (lines.filterMap (valueIn ["format".toList] ReportFormat.ofName)).getLast?.getD .text } := by
  have hvalues {ε α : Type} {keys : List Text} {read : Text → Except ε α} {get : Setting → Option α}
      (h : ∀ key value, (Setting.ofPair key value).toOption.bind get =
        if key.toLower ∈ keys then (read value).toOption else none) :
      (lines.filterMap change?).filterMap get = lines.filterMap (valueIn keys read) := by
    rw [List.filterMap_filterMap]
    exact congrArg (lines.filterMap ·) (funext (valueIn_eq h))
  rw [Setting.foldl_apply, hvalues Setting.language?_ofPair, hvalues Setting.timing?_ofPair,
    hvalues Setting.color?_ofPair, hvalues Setting.format?_ofPair]

/-! ### What is reported -/

theorem errorAt?_eq_some_iff {line : Text} {n : Nat} {e : LineError} :
    errorAt? line n = some e ↔ e.line = n ∧ Rejects line e.cause := by
  rw [← readLine_eq_error_iff, errorAt?]
  obtain ⟨m, cause⟩ := e
  cases readLine line <;> simp [eq_comm]

theorem mem_readLines_iff {s : Settings} {n : Nat} {lines : List Text} {e : LineError} :
    e ∈ (readLines s n lines).2 ↔
      n ≤ e.line ∧ ∃ line, lines[e.line - n]? = some line ∧ Rejects line e.cause := by
  simp only [readLines_eq, List.mem_filterMap, errorAt?_eq_some_iff]
  constructor
  · rintro ⟨⟨line, _⟩, hmem, rfl, hrejects⟩
    obtain ⟨hle, hline⟩ := List.mk_mem_zipIdx_iff_le_and_getElem?_sub.mp hmem
    exact ⟨hle, line, hline, hrejects⟩
  · rintro ⟨hle, line, hline, hrejects⟩
    exact ⟨(line, e.line), List.mk_mem_zipIdx_iff_le_and_getElem?_sub.mpr ⟨hle, hline⟩, rfl, hrejects⟩

theorem pairwise_readLines (s : Settings) (n : Nat) (lines : List Text) :
    (readLines s n lines).2.Pairwise fun e e' => e.line < e'.line := by
  have hnumbers : (lines.zipIdx n).Pairwise fun x y => x.2 < y.2 := by
    rw [← List.pairwise_map, List.zipIdx_map_snd]
    exact List.pairwise_lt_range'
  rw [readLines_eq, List.pairwise_filterMap]
  refine hnumbers.imp fun hlt e he e' he' => ?_
  rw [(errorAt?_eq_some_iff.mp he).1, (errorAt?_eq_some_iff.mp he').1]
  exact hlt

/-! ### Lines that might as well be blank -/

theorem change?_of_isBlank {line : Text} (h : line.isBlank) : change? line = none := by
  rw [change?, readLine_of_isBlank h]
  rfl

theorem errorAt?_of_isBlank {line : Text} (h : line.isBlank) (n : Nat) : errorAt? line n = none := by
  rw [errorAt?, readLine_of_isBlank h]

theorem change?_of_rejects {line : Text} {cause : SettingError} (h : Rejects line cause) :
    change? line = none := by
  rw [change?, readLine_eq_error_iff.mpr h]
  rfl

/-- What a line may be replaced by: a line that can be used by itself alone, and any other one by a
blank line. -/
inductive Blanks : Text → Text → Prop
  | keep {line : Text} (h : ∀ cause, ¬ Rejects line cause) : Blanks line line
  | blank {line line' : Text} {cause : SettingError} (h : Rejects line cause) (isBlank : line'.isBlank)
      (isLine : '\n' ∉ line') : Blanks line line'

theorem blanks_self {line : Text} {change : Option Setting} (h : readLine line = .ok change) :
    Blanks line line := by
  refine .keep fun cause hrejects => ?_
  rw [readLine_eq_error_iff.mpr hrejects] at h
  cases h

theorem readLines_of_blanks {lines lines' : List Text} (h : List.Forall₂ Blanks lines lines')
    (s : Settings) (n m : Nat) : readLines s m lines' = ((readLines s n lines).1, []) := by
  induction h generalizing s n m with
  | nil => rfl
  | cons hline _ ih =>
    cases hline with
    | keep h =>
      -- the number is a new one, but nothing is reported
      have herror : errorAt? _ m = none :=
        Option.eq_none_iff_forall_ne_some.mpr fun e he => h _ (errorAt?_eq_some_iff.mp he).2
      rw [readLines_cons, readLines_cons, ih _ (n + 1), herror]
      rfl
    | blank h isBlank =>
      -- a line that is reported makes no change, and neither does a blank one
      rw [readLines_cons, readLines_cons, ih _ (n + 1), change?_of_isBlank isBlank,
        errorAt?_of_isBlank isBlank, change?_of_rejects h]
      rfl

theorem ofText_eq (t : Text) : ofText t = readLines {} 1 (t.splitOn '\n') := by
  rcases t.splitOn_eq_lines with h | h
  · rw [h, ofText]
  · -- splitting gives one more piece at the end, which is blank
    have hchange : change? [] = none := change?_of_isBlank rfl
    have herror : ∀ n, errorAt? [] n = none := errorAt?_of_isBlank rfl
    simp [h, ofText, readLines_eq, List.zipIdx_append, hchange, herror]

theorem notMem_of_blanks {lines lines' : List Text} (h : List.Forall₂ Blanks lines lines')
    (hlines : ∀ line ∈ lines, '\n' ∉ line) : ∀ line ∈ lines', '\n' ∉ line := by
  induction h with
  | nil => exact hlines
  | cons hline _ ih =>
    rw [List.forall_mem_cons] at hlines ⊢
    refine ⟨?_, ih hlines.2⟩
    cases hline with
    | keep => exact hlines.1
    | blank _ _ isLine => exact isLine

/-- Blank lines in place of those that cannot be used give the same settings. -/
theorem ofText_intercalate_of_blanks {t : Text} {lines : List Text}
    (h : List.Forall₂ Blanks (t.splitOn '\n') lines) :
    ofText (List.intercalate ['\n'] lines) = ((ofText t).1, []) := by
  have hlines : ∀ line ∈ lines, '\n' ∉ line :=
    notMem_of_blanks h fun line hline => Text.notMem_of_mem_splitOn hline
  have hne : lines ≠ [] := by
    rintro rfl
    exact Text.splitOn_ne_nil '\n' t (List.forall₂_nil_right_iff.mp h)
  rw [ofText_eq, Text.splitOn_eq, List.splitOn_intercalate '\n' hlines hne, ofText_eq t]
  exact readLines_of_blanks h {} 1 1

/-! ### Changes in place -/

/-- One setting set in place: its value is read first, and then the field that the key names is
written. -/
def assign (key value : Text) : ExceptT SettingError (StateM Settings) Unit := do
  if key.toLower = "language".toList ∨ key.toLower = "lang".toList then
    let language ← ofExcept ((Language.ofName value).mapError .unknownLanguage)
    modify ({ · with language := some language })
  else if key.toLower = "timing".toList then
    let timing ← ofExcept (flagOfName value)
    modify ({ · with timing })
  else if key.toLower = "color".toList ∨ key.toLower = "colour".toList then
    let color ← ofExcept (Coloring.ofName value)
    modify ({ · with color })
  else if key.toLower = "format".toList then
    let format ← ofExcept (ReportFormat.ofName value)
    modify ({ · with format })
  else throw (.unknownKey key)

/-- **A setting is set, or all of them stay.** -/
theorem run_assign (s : Settings) (key value : Text) : (assign key value).run s =
    match s.set key value with
    | .ok s' => (.ok (), s')
    | .error cause => (.error cause, s) := by
  simp only [assign, set, Setting.ofPair]
  -- a value that cannot be read ends each branch before anything is written
  split_ifs
  · cases Language.ofName value <;> rfl
  · cases flagOfName value <;> rfl
  · cases Coloring.ofName value <;> rfl
  · cases ReportFormat.ofName value <;> rfl
  · rfl

/-! ### A file of settings -/

/-- **The last usable line counts, setting by setting, and a line that cannot be used changes
nothing.**  Each setting has the value of the last line that gives it one, or is as at the start.
Reported are exactly the lines that cannot be used, each once, with increasing numbers.  With blank
lines in place of them there is nothing to report and the settings are the same.  A key and a value
that are refused leave every setting as it was. -/
theorem ofText_lastValues_and_errors :
    (∀ t : Text, (ofText t).1 =
      { language := (t.lines.filterMap (valueIn ["language".toList, "lang".toList] Language.ofName)).getLast?
        timing := (t.lines.filterMap (valueIn ["timing".toList] flagOfName)).getLast?.getD false
        color := (t.lines.filterMap
          (valueIn ["color".toList, "colour".toList] Coloring.ofName)).getLast?.getD .auto
        format := (t.lines.filterMap
          (valueIn ["format".toList] ReportFormat.ofName)).getLast?.getD .text }) ∧
    (∀ (t : Text) (e : LineError), e ∈ (ofText t).2 ↔
      1 ≤ e.line ∧ ∃ line, t.lines[e.line - 1]? = some line ∧ Rejects line e.cause) ∧
    (∀ t : Text, (ofText t).2.Pairwise fun e e' => e.line < e'.line) ∧
    (∀ (t : Text) (lines : List Text), List.Forall₂ Blanks (t.splitOn '\n') lines →
      ofText (List.intercalate ['\n'] lines) = ((ofText t).1, [])) ∧
    ∀ (s : Settings) (key value : Text), (assign key value).run s =
      match s.set key value with
      | .ok s' => (.ok (), s')
      | .error cause => (.error cause, s) := by
  refine ⟨fun t => ?_, fun t e => mem_readLines_iff, fun t => pairwise_readLines {} 1 t.lines,
    fun t lines h => ofText_intercalate_of_blanks h, run_assign⟩
  rw [ofText, readLines_eq]
  exact foldl_apply_filterMap_change? t.lines

/-- A language that there is not does not replace one that there is. -/
theorem ofText_lastValues_and_errors_unknown :
    let t := "Lang = 'kt'\r\nquiet\r\n\n   lang = cobol".toList
    ofText t = ({ language := some .kotlin }, [⟨2, .noValue "quiet".toList⟩,
      ⟨4, .unknownLanguage ⟨"cobol".toList⟩⟩]) ∧
    ofText "Lang = 'kt'\r\n\t\n\n".toList = ((ofText t).1, []) := by
  intro t
  obtain ⟨-, -, -, hblank, -⟩ := ofText_lastValues_and_errors
  have hlang : Blanks "Lang = 'kt'\r".toList "Lang = 'kt'\r".toList :=
    blanks_self (show readLine _ = .ok (some (.language .kotlin)) by decide)
  have hempty : Blanks [] [] := blanks_self (show readLine [] = .ok none by decide)
  have hquiet : Rejects "quiet\r".toList (.noValue "quiet".toList) :=
    readLine_eq_error_iff.mp (by decide)
  have hcobol : Rejects "   lang = cobol".toList (.unknownLanguage ⟨"cobol".toList⟩) :=
    readLine_eq_error_iff.mp (by decide)
  -- two lines stay as they are, and the two that are reported become blank
  exact ⟨by decide, hblank t ["Lang = 'kt'\r".toList, "\t".toList, [], []]
    (.cons hlang (.cons (.blank hquiet (by decide) (by decide)) (.cons hempty
      (.cons (.blank hcobol (by decide) (by decide)) .nil))))⟩

end Settings

end DryRun
