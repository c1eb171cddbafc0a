import Mathlib.Data.List.Induction
import Mathlib.Tactic.SplitIfs
import DryRun.CommandLine

/-!
# Spellings of a command line

A command line is spelled by parts: file names, clusters of flags, and clusters that end in an option
with a value, which stands in the same argument or in the next one.  The arguments that are accepted
are exactly those that spell a line, and what they ask for is read off the line
(`parse_eq_ok_iff_and_interchangeable`).  Reading goes part by part (`foldlM_textOf`), so parts that ask
for the same in the same order can stand for each other (`interchangeable_of_eq`).
-/

namespace DryRun.CommandLine

/-! ### Parts of a command line -/

/-- The options without a value. -/
inductive Flag where
  | debug | json | noColor | timing
deriving DecidableEq, Repr

def Flag.letter : Flag → Char
  | debug => 'd'
  | json => 'j'
  | noColor => 'n'
  | timing => 't'

/-- The letters of several flags. -/
def lettersOf (fs : List Flag) : Text := fs.map Flag.letter

/-- The options whose value may stand in the next argument. -/
inductive ValueOption where
  | code | language
deriving DecidableEq, Repr

def ValueOption.letter : ValueOption → Char
  | code => 'c'
  | language => 'l'

/-- How a cluster ends in an option with a value. -/
inductive Valued where
  /-- `f` takes the rest of the cluster, which may be empty. -/
  | settings (path : Text)
  /-- The value, which is not empty, is the rest of the cluster. -/
  | attached (option : ValueOption) (first : Char) (rest : Text)
  /-- The value is the next argument, whatever it looks like. -/
  | detached (option : ValueOption) (value : Text)
deriving DecidableEq, Repr

/-- The end of the cluster. -/
def Valued.text : Valued → Text
  | settings path => 'f' :: path
  | attached option first rest => option.letter :: first :: rest
  | detached option _ => [option.letter]

/-- The arguments behind the cluster that belong to it. -/
def Valued.next : Valued → List Text
  | settings _ | attached .. => []
  | detached _ value => [value]

/-- Whether an argument is a file name: it does not begin like an option, or it is `-`. -/
def IsFileName (t : Text) : Prop := t = ['-'] ∨ t.head? ≠ some '-'

instance (t : Text) : Decidable (IsFileName t) :=
  inferInstanceAs (Decidable (t = ['-'] ∨ t.head? ≠ some '-'))

/-- A part of a command line. -/
inductive Part where
  | file (name : Text) (isFileName : IsFileName name)
  /-- A cluster of one or more flags. -/
  | flags (f : Flag) (fs : List Flag)
  /-- A cluster of flags, or of none, that ends in an option with a value. -/
  | valued (fs : List Flag) (value : Valued)
deriving DecidableEq, Repr

/-- The arguments that spell a part. -/
def Part.text : Part → List Text
  | file name _ => [name]
  | flags f fs => ['-' :: lettersOf (f :: fs)]
  | valued fs value => ('-' :: (lettersOf fs ++ value.text)) :: value.next

/-- The arguments that spell several parts. -/
def textOf (parts : List Part) : List Text := parts.flatMap Part.text

/-- A command line: its parts, and what follows `--`, if that is there. -/
structure Line where
  parts : List Part
  more : Option (List Text) := none
deriving DecidableEq, Repr

/-- The arguments that spell a line. -/
def Line.text (l : Line) : List Text :=
  textOf l.parts ++ (l.more.map (['-', '-'] :: ·)).getD []

/-! ### What a line asks for -/

/-- A change to what a command line asks for. -/
inductive Change where
  | flag (f : Flag)
  | settings (source : SettingsSource)
  | code (value : Text)
  | language (name : Text)
deriving DecidableEq, Repr

namespace Change

def source? : Change → Option SettingsSource
  | settings source => some source
  | _ => none

def code? : Change → Option Text
  | code value => some value
  | _ => none

def languageName? : Change → Option Text
  | language name => some name
  | _ => none

/-- What is asked for after a change. -/
def apply (o : Options) : Change → Options
  | flag .debug => { o with debug := true }
  | flag .json => { o with json := true }
  | flag .noColor => { o with noColor := true }
  | flag .timing => { o with timing := true }
  | settings source => { o with settings := source }
  | code value => { o with code := some value }
  | language name => { o with language := (Language.ofName name).toOption }

/-- What is asked for after a change, if it names a language that there is. -/
def read (o : Options) (change : Change) : Except UsageError Options :=
  match change with
  | language name =>
    match Language.ofName name with
    | .ok _ => .ok (change.apply o)
    | .error e => .error (.unknownLanguage e)
  | _ => .ok (change.apply o)

end Change

def ValueOption.change : ValueOption → Text → Change
  | code, value => .code value
  | language, name => .language name

def Valued.change : Valued → Change
  | settings path => .settings (if path = [] then .skip else .explicit path)
  | attached option first rest => option.change (first :: rest)
  | detached option value => option.change value

/-- The changes that a part asks for, in order. -/
def Part.changes : Part → List Change
  | file _ _ => []
  | flags f fs => (f :: fs).map .flag
  | valued fs value => fs.map .flag ++ [value.change]

/-- The file names in a part. -/
def Part.files : Part → List Text
  | file name _ => [name]
  | flags .. | valued .. => []

def Line.changes (l : Line) : List Change := l.parts.flatMap Part.changes

/-- The file names in a line: those in its parts, and everything behind `--`. -/
def Line.files (l : Line) : List Text := l.parts.flatMap Part.files ++ l.more.getD []

/-- Whether a line can be used: its languages exist, there is at most one file name, and there is no
snippet beside the name of a file.  The file name `-` means standard input. -/
structure Line.IsAcceptable (l : Line) : Prop where
  languages : ∀ name, Change.language name ∈ l.changes → ∃ language, Language.ofName name = .ok language
  files : l.files.length ≤ 1
  source : ∀ value, Change.code value ∈ l.changes → ∀ name ∈ l.files, name = ['-']

/-- What a line asks for: its changes from left to right, and its file. -/
def Line.options (l : Line) : Options :=
  { l.changes.foldl Change.apply {} with file := l.files.head?.filter (· ≠ ['-']) }

/-! ### Reading parts -/

variable {o : Options} {files : List Text} {s s' : State} {argv : List Text}

/-- The state in which an option or a file name may come next. -/
abbrev ready (o : Options) (files : List Text) : State := ⟨o, files, .any⟩

theorem readCluster_letter (f : Flag) (rest : Text) :
    readCluster (ready o files) (f.letter :: rest) =
      readCluster (ready ((Change.flag f).apply o) files) rest := by
  cases f <;> simp [readCluster, Flag.letter, Change.apply]

theorem readCluster_letters (fs : List Flag) (rest : Text) :
    readCluster (ready o files) (lettersOf fs ++ rest) =
      readCluster (ready ((fs.map Change.flag).foldl Change.apply o) files) rest := by
  induction fs generalizing o with
  | nil => rfl
  | cons f fs ih => exact (readCluster_letter f _).trans ih

theorem foldlM_flags (fs : List Flag) (changes : List Change) :
    (fs.map Change.flag ++ changes).foldlM Change.read o =
      changes.foldlM Change.read ((fs.map Change.flag).foldl Change.apply o) := by
  induction fs generalizing o with
  | nil => rfl
  | cons f fs ih => exact ih

theorem setLanguage_eq (expected : Expected) (name : Text) :
    State.setLanguage ⟨o, files, expected⟩ name =
      ((Change.language name).read o).map (ready · files) := by
  simp only [State.setLanguage, Change.read, Change.apply]
  cases Language.ofName name <;> rfl

/-- The value of an option is read where it stands, or in the next argument. -/
theorem foldlM_valued (value : Valued) :
    (readCluster (ready o files) value.text >>= value.next.foldlM readArgument) =
      (value.change.read o).map (ready · files) := by
  cases value with
  | settings path => rfl
  | attached option first rest =>
    cases option with
    | code => rfl
    | language => exact (bind_pure _).trans (setLanguage_eq .any (first :: rest))
  | detached option value =>
    cases option with
    | code => rfl
    | language => exact (bind_pure _).trans (setLanguage_eq .language value)

theorem expected_of_setLanguage {name : Text} (h : s.setLanguage name = .ok s') :
    s'.expected = .any := by
  unfold State.setLanguage at h
  split at h <;> cases h
  rfl

theorem readArgument_file {name : Text} (h : IsFileName name) :
    readArgument (ready o files) name = .ok (ready o (name :: files)) := by
  rcases h with rfl | h
  · rfl
  · simp only [readArgument]
    split <;> first | rfl | exact absurd rfl h

theorem readArgument_cluster {c : Char} {t : Text} (h : c ≠ '-') :
    readArgument (ready o files) ('-' :: c :: t) = readCluster (ready o files) (c :: t) := by
  simp only [readArgument]
  split
  · rename_i heq
    simp [h] at heq
  · rename_i heq
    simp only [List.cons.injEq, true_and] at heq
    obtain ⟨rfl, rfl⟩ := heq
    rfl
  · rename_i hne
    exact absurd rfl (hne c t)

theorem Flag.letter_ne (f : Flag) : f.letter ≠ '-' := by
  cases f <;> decide

theorem ValueOption.letter_ne (option : ValueOption) : option.letter ≠ '-' := by
  cases option <;> decide

/-- The letters of flags, and what stands behind them, are read as a cluster. -/
theorem readArgument_letters {fs : List Flag} {t : Text} (hne : lettersOf fs ++ t ≠ [])
    (ht : t.head? ≠ some '-') : readArgument (ready o files) ('-' :: (lettersOf fs ++ t)) =
      readCluster (ready ((fs.map Change.flag).foldl Change.apply o) files) t := by
  rw [← readCluster_letters]
  cases fs with
  | nil =>
    obtain ⟨c, t, rfl⟩ := List.exists_cons_of_ne_nil (l := t) hne
    exact readArgument_cluster fun h => ht (by rw [h]; rfl)
  | cons f fs => exact readArgument_cluster f.letter_ne

theorem Valued.head_ne (value : Valued) : value.text ≠ [] ∧ value.text.head? ≠ some '-' := by
  cases value with
  | settings path => exact ⟨by simp [text], by simp [text]⟩
  | attached option first rest => exact ⟨by simp [text], by simpa [text] using option.letter_ne⟩
  | detached option value => exact ⟨by simp [text], by simpa [text] using option.letter_ne⟩

/-- **A part is read as a whole**: its changes are made and its file name is kept. -/
theorem foldlM_text (p : Part) : p.text.foldlM readArgument (ready o files) =
    (p.changes.foldlM Change.read o).map (ready · (p.files.reverse ++ files)) := by
  cases p with
  | file name h =>
    rw [Part.text, List.foldlM_cons, readArgument_file h]
    rfl
  | flags f fs =>
    have h : readArgument (ready o files) ('-' :: (lettersOf (f :: fs) ++ [])) = _ :=
      readArgument_letters (by simp [lettersOf]) (by simp)
    rw [List.append_nil] at h
    rw [Part.text, List.foldlM_cons, h, Part.changes, ← List.append_nil (List.map _ _), foldlM_flags,
      List.append_nil]
    rfl
  | valued fs value =>
    obtain ⟨hne, hhead⟩ := value.head_ne
    rw [Part.text, List.foldlM_cons, readArgument_letters (by simp [hne]) hhead, foldlM_valued,
      Part.changes, foldlM_flags, List.foldlM_cons]
    cases value.change.read _ <;> rfl

/-- So are several parts, one after the other. -/
theorem foldlM_textOf (parts : List Part) : (textOf parts).foldlM readArgument (ready o files) =
    ((parts.flatMap Part.changes).foldlM Change.read o).map
      (ready · ((parts.flatMap Part.files).reverse ++ files)) := by
  induction parts generalizing o files with
  | nil => rfl
  | cons p parts ih =>
    rw [textOf, List.flatMap_cons, List.foldlM_append, foldlM_text, List.flatMap_cons,
      List.flatMap_cons, List.foldlM_append]
    cases p.changes.foldlM Change.read o with
    | error e => rfl
    | ok o' =>
      refine ih.trans ?_
      rw [List.reverse_append, List.append_assoc]
      rfl

/-- Behind `--` there are only file names. -/
theorem foldlM_more (more : List Text) :
    (['-', '-'] :: more).foldlM readArgument (ready o files) =
      .ok ⟨o, more.reverse ++ files, .file⟩ := by
  have h : ∀ files, more.foldlM readArgument ⟨o, files, .file⟩ =
      .ok ⟨o, more.reverse ++ files, .file⟩ := by
    induction more with
    | nil => exact fun _ => rfl
    | cons name more ih =>
      intro files
      refine (ih (name :: files)).trans ?_
      rw [List.reverse_cons, List.append_assoc]
      rfl
  exact h files

theorem exists_foldlM_line (l : Line) : ∃ expected, (expected = .any ∨ expected = .file) ∧
    ∀ o, l.text.foldlM readArgument (ready o []) =
      (l.changes.foldlM Change.read o).map fun o => ⟨o, l.files.reverse, expected⟩ := by
  obtain ⟨parts, _ | more⟩ := l
  · refine ⟨.any, Or.inl rfl, fun o => ?_⟩
    have h : (textOf parts).foldlM readArgument (ready o []) = _ := foldlM_textOf parts
    simpa [Line.text, Line.files, Line.changes] using h
  · refine ⟨.file, Or.inr rfl, fun o => ?_⟩
    rw [Line.text, List.foldlM_append, foldlM_textOf]
    change _ = ((parts.flatMap Part.changes).foldlM Change.read o).map _
    cases (parts.flatMap Part.changes).foldlM Change.read o with
    | error e => rfl
    | ok o' =>
      refine (foldlM_more more).trans ?_
      rw [Line.files, List.reverse_append, List.append_nil]
      rfl

/-! ### What the changes come to -/

/-- A change asks only that a language exists. -/
theorem read_eq_ok_iff {change : Change} {o' : Options} : change.read o = .ok o' ↔
    (∀ name, change = .language name → ∃ language, Language.ofName name = .ok language) ∧
      change.apply o = o' := by
  cases change with
  | language name => cases h : Language.ofName name <;> simp [Change.read, h]
  | _ => simp [Change.read]

theorem foldlM_read_eq_ok_iff {changes : List Change} {o' : Options} :
    changes.foldlM Change.read o = .ok o' ↔
      (∀ name, .language name ∈ changes → ∃ language, Language.ofName name = .ok language) ∧
        changes.foldl Change.apply o = o' := by
  induction changes generalizing o with
  | nil => simp [pure, Except.pure]
  | cons change changes ih =>
    have hbind : (change :: changes).foldlM Change.read o = .ok o' ↔
        ∃ o₁, change.read o = .ok o₁ ∧ changes.foldlM Change.read o₁ = .ok o' := by
      rw [List.foldlM_cons]
      cases change.read o <;> simp [bind, Except.bind]
    simp only [hbind, read_eq_ok_iff, ih, List.mem_cons, List.foldl_cons]
    constructor
    · rintro ⟨o₁, ⟨hchange, rfl⟩, hchanges, hfold⟩
      exact ⟨fun name hname => hname.elim (fun h => hchange name h.symm) (hchanges name), hfold⟩
    · rintro ⟨h, hfold⟩
      exact ⟨_, ⟨fun name hname => h name (Or.inl hname.symm), rfl⟩, fun name hname => h name (Or.inr hname),
        hfold⟩

/-- **Of the changes of one kind the last one counts.** -/
theorem foldl_apply (changes : List Change) (o : Options) : changes.foldl Change.apply o =
    { language := ((changes.filterMap Change.languageName?).getLast?).elim o.language fun name =>
        (Language.ofName name).toOption
      code := (changes.filterMap Change.code?).getLast? <|> o.code
      file := o.file
      settings := ((changes.filterMap Change.source?).getLast?).getD o.settings
      json := o.json || changes.contains (.flag .json)
      timing := o.timing || changes.contains (.flag .timing)
      noColor := o.noColor || changes.contains (.flag .noColor)
      debug := o.debug || changes.contains (.flag .debug) } := by
  induction changes using List.reverseRecOn with
  | nil => simp
  | append_singleton changes change ih =>
    rw [List.foldl_append, ih]
    cases change with
    | flag f => cases f <;> simp [Change.apply, Change.languageName?, Change.code?, Change.source?]
    | _ => simp [Change.apply, Change.languageName?, Change.code?, Change.source?]

/-! ### Which arguments are accepted -/

/-- One file name at most is allowed, and beside a snippet only that of standard input. -/
theorem finish_eq_ok_iff {expected : Expected} {r : Options} (ho : o.file = none)
    (he : expected = .any ∨ expected = .file) : finish ⟨o, files, expected⟩ = .ok r ↔
      files.length ≤ 1 ∧ (o.code ≠ none → ∀ name ∈ files, name = ['-']) ∧
        { o with file := files.head?.filter (· ≠ ['-']) } = r := by
  have hfinish : finish ⟨o, files, expected⟩ = finish (ready o files) := by
    rcases he with rfl | rfl <;> rfl
  rw [hfinish]
  obtain ⟨language, code, _⟩ := o
  obtain rfl := ho
  match files with
  | [] => simp [finish]
  | [name] => by_cases hname : name = ['-'] <;> cases code <;> simp [finish, hname, Option.filter]
  | _ :: _ :: _ => simp [finish]

theorem file_foldl_apply (changes : List Change) : (changes.foldl Change.apply {}).file = none := by
  rw [foldl_apply]

theorem Change.code?_eq_some_iff {change : Change} {value : Text} :
    change.code? = some value ↔ change = .code value := by
  cases change <;> simp [Change.code?]

theorem code_foldl_apply_ne_none {changes : List Change} :
    (changes.foldl Change.apply {}).code ≠ none ↔ ∃ value, Change.code value ∈ changes := by
  have hnone : (changes.foldl Change.apply {}).code = none ↔ ∀ change ∈ changes, change.code? = none := by
    simp [foldl_apply]
  simp only [ne_eq, hnone, not_forall, ← Option.isSome_iff_ne_none, Option.isSome_iff_exists,
    Change.code?_eq_some_iff, exists_prop]
  exact ⟨fun ⟨_, hmem, value, h⟩ => ⟨value, h ▸ hmem⟩, fun ⟨value, h⟩ => ⟨_, h, value, rfl⟩⟩

/-- **The arguments that spell a line are accepted if the line can be used**, and ask for what it
asks for. -/
theorem parse_text_eq_ok_iff {l : Line} {r : Options} :
    parse l.text = .ok r ↔ l.IsAcceptable ∧ l.options = r := by
  obtain ⟨expected, hexpected, hread⟩ := exists_foldlM_line l
  have hparse : parse l.text = .ok r ↔ ∃ o, l.changes.foldlM Change.read {} = .ok o ∧
      finish ⟨o, l.files.reverse, expected⟩ = .ok r := by
    have hline : l.text.foldlM readArgument {} = _ := hread {}
    rw [parse, hline]
    cases l.changes.foldlM Change.read {} <;> simp [bind, Except.bind, Except.map]
  rw [hparse]
  simp only [foldlM_read_eq_ok_iff]
  have hreverse : l.files.length ≤ 1 → l.files.reverse = l.files := by
    match l.files with
    | [] => exact fun _ => rfl
    | [_] => exact fun _ => rfl
    | _ :: _ :: _ => exact fun h => absurd h (by simp)
  constructor
  · rintro ⟨_, ⟨hlanguages, rfl⟩, hfinish⟩
    obtain ⟨hlength, hsource, rfl⟩ := (finish_eq_ok_iff (file_foldl_apply _) hexpected).mp hfinish
    rw [List.length_reverse] at hlength
    rw [hreverse hlength] at hsource ⊢
    exact ⟨⟨hlanguages, hlength, fun value hvalue => hsource (code_foldl_apply_ne_none.mpr ⟨value, hvalue⟩)⟩,
      rfl⟩
  · rintro ⟨⟨hlanguages, hlength, hsource⟩, rfl⟩
    refine ⟨_, ⟨hlanguages, rfl⟩, (finish_eq_ok_iff (file_foldl_apply _) hexpected).mpr ?_⟩
    rw [hreverse hlength]
    refine ⟨hlength, fun hcode => ?_, rfl⟩
    obtain ⟨value, hvalue⟩ := code_foldl_apply_ne_none.mp hcode
    exact hsource value hvalue

/-- What a cluster may end in behind its flags, and what is expected next. -/
inductive ClusterEnd : Text → Expected → Prop
  | plain : ClusterEnd [] .any
  | value (value : Valued) (h : value.next = []) : ClusterEnd value.text .any
  | code : ClusterEnd [ValueOption.code.letter] .code
  | language : ClusterEnd [ValueOption.language.letter] .language

theorem exists_of_readCluster {t : Text} (h : readCluster (ready o files) t = .ok s) :
    ∃ fs tail, t = lettersOf fs ++ tail ∧ ClusterEnd tail s.expected := by
  induction t generalizing o with
  | nil =>
    cases h
    exact ⟨[], [], rfl, .plain⟩
  | cons c t ih =>
    have hflag : ∀ f : Flag, c = f.letter →
        readCluster (ready ((Change.flag f).apply o) files) t = .ok s →
        ∃ fs tail, c :: t = lettersOf fs ++ tail ∧ ClusterEnd tail s.expected := by
      rintro f rfl h
      obtain ⟨fs, tail, rfl, hend⟩ := ih h
      exact ⟨f :: fs, tail, rfl, hend⟩
    have hsettings : c = 'f' → ∃ fs tail, c :: t = lettersOf fs ++ tail ∧ ClusterEnd tail .any := by
      rintro rfl
      exact ⟨[], 'f' :: t, rfl, .value (.settings t) rfl⟩
    -- the letters are tried in this order: the four flags, then `f`, `c` and `l`
    unfold readCluster at h
    split_ifs at h with hd hj hn ht hf _ hc hnext hl hnext
    · exact hflag .debug hd h
    · exact hflag .json hj h
    · exact hflag .noColor hn h
    · exact hflag .timing ht h
    · cases h
      exact hsettings hf
    · cases h
      exact hsettings hf
    · cases h
      exact ⟨[], c :: t, rfl, hc ▸ hnext ▸ .code⟩
    · cases h
      obtain ⟨first, rest, rfl⟩ := List.exists_cons_of_ne_nil hnext
      exact ⟨[], c :: first :: rest, rfl, hc ▸ .value (.attached .code first rest) rfl⟩
    · cases h
      exact ⟨[], c :: t, rfl, hl ▸ hnext ▸ .language⟩
    · obtain ⟨first, rest, rfl⟩ := List.exists_cons_of_ne_nil hnext
      rw [expected_of_setLanguage h]
      exact ⟨[], c :: first :: rest, rfl, hl ▸ .value (.attached .language first rest) rfl⟩

/-- An argument that is read is a file name, `--`, or a cluster of flags with an end. -/
theorem of_readArgument {t : Text} (h : readArgument (ready o files) t = .ok s) :
    (IsFileName t ∧ s.expected = .any) ∨ t = ['-', '-'] ∨
      ∃ fs tail, t = '-' :: (lettersOf fs ++ tail) ∧ lettersOf fs ++ tail ≠ [] ∧
        ClusterEnd tail s.expected := by
  simp only [readArgument] at h
  split at h
  · exact Or.inr (Or.inl rfl)
  · rename_i c rest _
    obtain ⟨fs, tail, hcluster, hend⟩ := exists_of_readCluster h
    exact Or.inr (Or.inr ⟨fs, tail, by rw [hcluster], by simp [← hcluster], hend⟩)
  · rename_i hne
    cases h
    refine Or.inl ⟨?_, rfl⟩
    cases t with
    | nil => exact Or.inr (by simp)
    | cons d rest =>
      by_cases hd : d = '-'
      · subst hd
        cases rest with
        | nil => exact Or.inl rfl
        | cons c rest => exact absurd rfl (hne c rest)
      · exact Or.inr (by simpa using hd)

theorem expected_of_readArgument {t : Text} (hs : s.expected = .code ∨ s.expected = .language)
    (h : readArgument s t = .ok s') : s'.expected = .any := by
  rcases hs with hs | hs <;> simp only [readArgument, hs] at h
  · cases h
    rfl
  · exact expected_of_setLanguage h

theorem exists_of_foldlM_cons {t : Text} {argv : List Text}
    (h : (t :: argv).foldlM readArgument s = .ok s') :
    ∃ s₁, readArgument s t = .ok s₁ ∧ argv.foldlM readArgument s₁ = .ok s' := by
  rw [List.foldlM_cons] at h
  cases hread : readArgument s t with
  | error e =>
    rw [hread] at h
    cases h
  | ok s₁ =>
    rw [hread] at h
    exact ⟨s₁, rfl, h⟩

/-- **Arguments that are read to the end spell a line.** -/
theorem exists_line {s' : State} (hs' : s'.expected = .any ∨ s'.expected = .file) :
    ∀ {argv : List Text} {s : State}, s.expected = .any → argv.foldlM readArgument s = .ok s' →
      ∃ l : Line, l.text = argv
  | [], _, _, _ => ⟨⟨[], none⟩, rfl⟩
  | t :: argv, ⟨o, files, _⟩, rfl, h => by
    obtain ⟨s₁, hread, hrest⟩ := exists_of_foldlM_cons h
    -- behind a cluster with a value to come, the next argument is the value
    have hdetached : ∀ option : ValueOption, (s₁.expected = .code ∨ s₁.expected = .language) →
        ∃ value argv', argv = value :: argv' ∧ ∃ l : Line, l.text = argv' := by
      intro option hexpected
      cases argv with
      | nil =>
        cases hrest
        rcases hexpected with he | he <;> rcases hs' with hs' | hs' <;> cases he.symm.trans hs'
      | cons value argv =>
        obtain ⟨s₂, hvalue, hrest⟩ := exists_of_foldlM_cons hrest
        exact ⟨value, argv, rfl, exists_line hs' (expected_of_readArgument hexpected hvalue) hrest⟩
    rcases of_readArgument hread with ⟨hfile, he⟩ | rfl | ⟨fs, tail, rfl, hne, hend⟩
    · obtain ⟨l, rfl⟩ := exists_line hs' he hrest
      exact ⟨⟨.file t hfile :: l.parts, l.more⟩, rfl⟩
    · exact ⟨⟨[], some argv⟩, rfl⟩
    · generalize he : s₁.expected = e at hend
      cases hend with
      | plain =>
        obtain ⟨l, rfl⟩ := exists_line hs' he hrest
        cases fs with
        | nil => exact absurd rfl hne
        | cons f fs => exact ⟨⟨.flags f fs :: l.parts, l.more⟩, by simp [Line.text, textOf, Part.text]⟩
      | value value hvalue =>
        obtain ⟨l, rfl⟩ := exists_line hs' he hrest
        exact ⟨⟨.valued fs value :: l.parts, l.more⟩, by simp [Line.text, textOf, Part.text, hvalue]⟩
      | code =>
        obtain ⟨value, argv, rfl, l, rfl⟩ := hdetached .code (Or.inl he)
        exact ⟨⟨.valued fs (.detached .code value) :: l.parts, l.more⟩, rfl⟩
      | language =>
        obtain ⟨value, argv, rfl, l, rfl⟩ := hdetached .language (Or.inr he)
        exact ⟨⟨.valued fs (.detached .language value) :: l.parts, l.more⟩, rfl⟩
termination_by argv => argv.length

theorem exists_line_of_parse {r : Options} (h : parse argv = .ok r) : ∃ l : Line, l.text = argv := by
  unfold parse at h
  cases hread : argv.foldlM readArgument {} with
  | error e =>
    rw [hread] at h
    cases h
  | ok s' =>
    rw [hread] at h
    refine exists_line ?_ rfl hread
    -- with a value still to come, the end of the arguments is an error
    replace h : finish s' = .ok r := h
    cases he : s'.expected with
    | any => exact Or.inl rfl
    | file => exact Or.inr rfl
    | code => simp [finish, he] at h
    | language => simp [finish, he] at h

/-! ### Parts that can stand for each other -/

/-- Whether parts of a line can stand for each other, whatever parts come before and whatever arguments
come behind. -/
def Interchangeable (ps qs : List Part) : Prop := ∀ (before : List Part) (after : List Text),
  parse (textOf before ++ (textOf ps ++ after)) = parse (textOf before ++ (textOf qs ++ after))

/-- Parts that ask for the same in the same order can stand for each other. -/
theorem interchangeable_of_eq {ps qs : List Part}
    (hchanges : ps.flatMap Part.changes = qs.flatMap Part.changes)
    (hfiles : ps.flatMap Part.files = qs.flatMap Part.files) : Interchangeable ps qs := by
  intro before after
  -- what has been read before either part is the same
  have h : ∀ o files, (textOf ps).foldlM readArgument (ready o files) =
      (textOf qs).foldlM readArgument (ready o files) := by
    intro o files
    rw [foldlM_textOf, foldlM_textOf, hchanges, hfiles]
  have hbefore : (textOf before).foldlM readArgument {} = _ := foldlM_textOf before
  simp only [parse, List.foldlM_append, hbefore]
  cases (before.flatMap Part.changes).foldlM Change.read {} with
  | error e => rfl
  | ok o => exact congrArg (fun x => x >>= after.foldlM readArgument >>= finish) (h o _)

/-- **Every spelling of a line means the same, and nothing else is accepted.**  Arguments are accepted
exactly if they spell a line that can be used; what they ask for is what its changes come to from left
to right, of which the last of each kind counts.  So flags may stand in one cluster or in several, the
value of an option may be attached or not, and a file name may stand before or behind other parts. -/
theorem parse_eq_ok_iff_and_interchangeable :
    (∀ argv r, parse argv = .ok r ↔ ∃ l : Line, l.text = argv ∧ l.IsAcceptable ∧ l.options = r) ∧
    (∀ l : Line, l.options =
      { language := (l.changes.filterMap Change.languageName?).getLast?.bind fun name =>
          (Language.ofName name).toOption
        code := (l.changes.filterMap Change.code?).getLast?
        file := l.files.head?.filter (· ≠ ['-'])
        settings := (l.changes.filterMap Change.source?).getLast?.getD .search
        json := decide (Change.flag .json ∈ l.changes)
        timing := decide (Change.flag .timing ∈ l.changes)
        noColor := decide (Change.flag .noColor ∈ l.changes)
        debug := decide (Change.flag .debug ∈ l.changes) }) ∧
    (∀ f fs g gs, Interchangeable [.flags f (fs ++ g :: gs)] [.flags f fs, .flags g gs]) ∧
    (∀ f fs gs value,
      Interchangeable [.valued (f :: (fs ++ gs)) value] [.flags f fs, .valued gs value]) ∧
    (∀ fs option first rest, Interchangeable [.valued fs (.attached option first rest)]
      [.valued fs (.detached option (first :: rest))]) ∧
    (∀ name isFileName ps, (∀ p ∈ ps, p.files = []) →
      Interchangeable (.file name isFileName :: ps) (ps ++ [.file name isFileName])) := by
  refine ⟨fun argv r => ⟨fun h => ?_, ?_⟩, fun l => ?_, fun f fs g gs => ?_, fun f fs gs value => ?_,
    fun fs option first rest => ?_, fun name isFileName ps hps => ?_⟩
  · obtain ⟨l, rfl⟩ := exists_line_of_parse h
    exact ⟨l, rfl, parse_text_eq_ok_iff.mp h⟩
  · rintro ⟨l, rfl, h⟩
    exact parse_text_eq_ok_iff.mpr h
  · have hbind : ∀ name : Option Text, (name.elim none fun name => (Language.ofName name).toOption) =
        name.bind fun name => (Language.ofName name).toOption := by
      rintro (_ | name) <;> rfl
    simp [Line.options, foldl_apply, hbind]
  · exact interchangeable_of_eq (by simp [Part.changes]) rfl
  · exact interchangeable_of_eq (by simp [Part.changes]) rfl
  · exact interchangeable_of_eq rfl rfl
  · have hfiles : ps.flatMap Part.files = [] := List.flatMap_eq_nil_iff.mpr hps
    exact interchangeable_of_eq (by simp [Part.changes]) (by simp [Part.files, hfiles])

/-- The code is `--` and the language Kotlin in each of these: behind an option that has no value yet,
`--` is its value. -/
theorem parse_eq_ok_iff_and_interchangeable_dashes :
    parse ["-jtc".toList, "--".toList, "-lkt".toList, "-".toList] =
      .ok { language := some .kotlin, code := some "--".toList, json := true, timing := true } ∧
    parse ["-jtc".toList, "--".toList, "-lkt".toList, "-".toList] =
      parse ["-j".toList, "-tc".toList, "--".toList, "-lkt".toList, "-".toList] ∧
    parse ["-j".toList, "-tc".toList, "--".toList, "-lkt".toList, "-".toList] =
      parse ["-j".toList, "-tc".toList, "--".toList, "-".toList, "-lkt".toList] := by
  obtain ⟨haccepted, -, -, hvalued, -, hfile⟩ := parse_eq_ok_iff_and_interchangeable
  let code := Valued.detached .code "--".toList
  let language := Valued.attached .language 'k' ['t']
  let stdin := Part.file ['-'] (Or.inl rfl)
  refine ⟨(haccepted _ _).mpr ⟨⟨[.valued [.json, .timing] code, .valued [] language, stdin], none⟩,
    by decide, ⟨fun name hname => ?_, by decide, fun _ _ => by decide⟩, by decide⟩, ?_, ?_⟩
  · have hkt : name = "kt".toList := by
      simpa [Line.changes, Part.changes, Valued.change, ValueOption.change, code, language, stdin] using hname
    exact ⟨.kotlin, by rw [hkt]; decide⟩
  · exact hvalued .json [] [.timing] code [] ["-lkt".toList, "-".toList]
  · exact (hfile ['-'] (Or.inl rfl) [.valued [] language] (by decide) [.flags .json [], .valued [.timing] code]
      []).symm

end DryRun.CommandLine
