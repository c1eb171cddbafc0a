import DryRun.Proofs.CommandLine
import DryRun.Proofs.Report
import DryRun.Session

/-!
# What a run prints

A run prints what is predicted for its snippet, whichever way the snippet comes in: as the value of an
option, as a file of any name, or on standard input.  A command line that gives the snippet, a language
and some flags asks for just that (`Line.Gives.options_eq`), the snippet is what is read
(`readSnippet_eq`), and what follows depends on neither the way nor the world, but for the lines of a log
that the environment may ask for (`run_eq_announced`).
-/

namespace DryRun

open CommandLine

variable {σ : Type} {host : Host (StateM σ)} {world : σ} {l : Line} {flags : List Flag}
  {source name : Text} {language : Language} {terminal : Bool} {options : Options}

/-- An outcome with the lines of a log in front of its error text. -/
def Outcome.logging (lines : Text) (o : Outcome) : Outcome :=
  { o with streams := ⟨[], lines⟩ ++ o.streams }

theorem Outcome.logging_logging (lines lines' : Text) (o : Outcome) :
    (o.logging lines').logging lines = o.logging (lines ++ lines') := by
  obtain ⟨status, out, err⟩ := o
  exact congrArg (fun err => Outcome.mk status ⟨out, err⟩) (List.append_assoc lines lines' err).symm

/-! ### Ways to give a snippet -/

/-- The ways in which a snippet comes in: as the value of an option, as the content of a file, or on
standard input, with or without the name `-` for it. -/
inductive Delivery where
  | code
  | file (path : Text) (isPath : path ≠ ['-'])
  | input (dash : Bool)

namespace Delivery

/-- The snippet as the value of an option. -/
def code? (source : Text) : Delivery → Option Text
  | code => some source
  | file .. | input _ => none

/-- The file that holds the snippet. -/
def path? : Delivery → Option Text
  | file path _ => some path
  | code | input _ => none

/-- The file names on a command line. -/
def files : Delivery → List Text
  | code => []
  | file path _ => [path]
  | input dash => if dash then [['-']] else []

/-- What a command line asks for that gives a snippet in some way, its language by name, no settings,
and some flags. -/
def request (way : Delivery) (source name : Text) (flags : List Flag) : List Change :=
  flags.map .flag ++ [.settings .skip, .language name] ++ ((way.code? source).map .code).toList

/-- Whether the snippet is there, in a world. -/
def Holds (host : Host (StateM σ)) (source : Text) (world : σ) : Delivery → Prop
  | code => True
  | file path _ => (host.readFile path world).1 = .ok source
  | input _ => (host.readInput world).1 = .ok source

end Delivery

variable {way : Delivery}

namespace CommandLine.Line

/-- Whether a command line gives a snippet in some way and asks for nothing else but its language and
some flags.  The order and the spelling are free. -/
structure Gives (l : Line) (way : Delivery) (source name : Text) (flags : List Flag) : Prop where
  changes : l.changes.Perm (way.request source name flags)
  files : l.files = way.files

namespace Gives

theorem mem_changes_iff (h : l.Gives way source name flags) {change : Change} :
    change ∈ l.changes ↔ (∃ f ∈ flags, .flag f = change) ∨ change = .settings .skip ∨
      change = .language name ∨ ∃ value ∈ way.code? source, .code value = change := by
  simp [h.changes.mem_iff, Delivery.request]

theorem flag_mem_iff (h : l.Gives way source name flags) (f : Flag) :
    .flag f ∈ l.changes ↔ f ∈ flags := by
  simp [h.mem_changes_iff]

theorem isAcceptable (h : l.Gives way source name flags) (hname : Language.ofName name = .ok language) :
    l.IsAcceptable where
  languages := by
    intro name' hmem
    obtain rfl : name' = name := by simpa [h.mem_changes_iff] using hmem
    exact ⟨language, hname⟩
  files := by
    rw [h.files]
    cases way with
    | input dash => cases dash <;> decide
    | _ => simp [Delivery.files]
  source := by
    intro value hmem
    have hcode : value ∈ way.code? source := by simpa [h.mem_changes_iff] using hmem
    rw [h.files]
    cases way with
    | code => simp [Delivery.files]
    | _ => cases hcode

/-- Of a kind of which there is one change at most, the order does not matter. -/
theorem filterMap_eq {α : Type} {f : Change → Option α} {a : Option α}
    (h : l.Gives way source name flags) (hflag : ∀ g, f (.flag g) = none)
    (hrest : ([Change.settings .skip, Change.language name] ++
      ((way.code? source).map Change.code).toList).filterMap f = a.toList) :
    l.changes.filterMap f = a.toList := by
  -- one change at most is left, and a list of one has no other order
  have hflags : (flags.map Change.flag).filterMap f = [] := by
    simp [hflag]
  have hperm := h.changes.filterMap f
  rw [Delivery.request, List.append_assoc, List.filterMap_append, hflags, List.nil_append, hrest] at hperm
  cases a with
  | none => exact List.perm_nil.1 hperm
  | some x => exact List.perm_singleton.1 hperm

/-- **Such a command line asks for the snippet, the language and the flags.** -/
theorem options_eq (h : l.Gives way source name flags) (hname : Language.ofName name = .ok language) :
    l.options = {
      language := language
      code := way.code? source
      file := way.path?
      settings := .skip
      json := decide (.json ∈ flags)
      timing := decide (.timing ∈ flags)
      noColor := decide (.noColor ∈ flags)
      debug := decide (.debug ∈ flags) } := by
  have hlanguage : l.changes.filterMap Change.languageName? = (some name).toList :=
    h.filterMap_eq (fun _ => rfl) (by cases way <;> rfl)
  have hcode : l.changes.filterMap Change.code? = (way.code? source).toList :=
    h.filterMap_eq (fun _ => rfl) (by cases way <;> rfl)
  have hsource : l.changes.filterMap Change.source? = (some SettingsSource.skip).toList :=
    h.filterMap_eq (fun _ => rfl) (by cases way <;> rfl)
  have hfile : l.files.head?.filter (· ≠ ['-']) = way.path? := by
    rw [h.files]
    cases way with
    | code => rfl
    | file path isPath => simp [Delivery.files, Delivery.path?, isPath]
    | input dash => cases dash <;> rfl
  rw [Line.options, foldl_apply, hlanguage, hcode, hsource, hfile]
  simp only [List.contains_eq_mem, h.flag_mem_iff]
  cases way <;> simp [hname, Delivery.code?, Except.toOption]

end Gives

end CommandLine.Line

/-! ### Reading the snippet -/

namespace Session

/-- Settings that are skipped are the usual ones, and nothing is read for them. -/
theorem exists_run_of_skip {arguments : List Text} (hparse : parse arguments = .ok options)
    (hskip : options.settings = .skip) : ∃ complaints : Text,
      (run host arguments world).1 = (runWith host options {} world).1.logging complaints ∧
        (logDirectives? host.log options = none → complaints = []) := by
  refine ⟨((logDirectives? host.log options).map host.log.complaints).getD [], ?_, fun h => by rw [h]; rfl⟩
  simp only [run, hparse, loadSettings, hskip]
  rfl

/-- **The snippet is read from where it is.** -/
theorem readSnippet_eq (hcode : options.code = way.code? source) (hfile : options.file = way.path?)
    (hholds : way.Holds host source world) : (readSnippet host options world).1 = .ok source := by
  rw [readSnippet, hcode, hfile]
  cases way with
  | code => rfl
  | file path isPath =>
    -- reading may change the world, of which nothing else is known
    obtain ⟨world', hread⟩ : ∃ world', host.readFile path world = (.ok source, world') :=
      ⟨_, Prod.ext hholds rfl⟩
    simp only [Delivery.code?, Delivery.path?, bind, StateT.bind, hread]
    rfl
  | input dash =>
    obtain ⟨world', hread⟩ : ∃ world', host.readInput world = (.ok source, world') :=
      ⟨_, Prod.ext hholds rfl⟩
    simp only [Delivery.code?, Delivery.path?, bind, StateT.bind, hread]
    rfl

/-- A run that knows its language and its snippet ends with the report of the prediction. -/
theorem exists_runWith_eq (settings : Settings) (hlanguage : options.language = some language)
    (hread : (readSnippet host options world).1 = .ok source) : ∃ elapsed lines world',
      let report := Report.ofPrediction elapsed (predict language source)
      (runWith host options settings world).1 =
        (Outcome.mk (if report.success then 0 else 1)
          (report.render (style options settings (host.onTerminal world').1))).logging lines ∧
        (logDirectives? host.log options = none → lines = []) := by
  obtain ⟨world', hread⟩ : ∃ world', readSnippet host options world = (.ok source, world') :=
    ⟨_, Prod.ext hread rfl⟩
  have hknown : language? options settings = some language := by
    rw [language?, hlanguage]
    rfl
  cases hlog : logDirectives? host.log options with
  | none =>
    simp only [runWith, hknown, bind, StateT.bind, hread, hlog]
    exact ⟨_, [], _, rfl, fun _ => rfl⟩
  | some directives =>
    simp only [runWith, hknown, bind, StateT.bind, hread, hlog]
    exact ⟨_, _, _, rfl, fun h => by cases h⟩

/-! ### What is printed -/

/-- The lines of the object that tells of a prediction in JSON. -/
def jsonLines (elapsed : Nat) : Except PredictionError Text → List Text
  | .ok output => [
      "\x7b".toList,
      "  \"success\": true,".toList,
      "  \"output\": ".toList ++ Json.string output ++ ",".toList,
      "  \"errorMessage\": null,".toList,
      "  \"executionTimeMs\": ".toList ++ Nat.toDigits 10 elapsed,
      "\x7d".toList]
  | .error e => [
      "\x7b".toList,
      "  \"success\": false,".toList,
      "  \"output\": \"\",".toList,
      "  \"errorMessage\": ".toList ++ Json.string e.message ++ ",".toList,
      "  \"executionTimeMs\": ".toList ++ Nat.toDigits 10 elapsed,
      "\x7d".toList]

/-- The line that gives the reason of a failure. -/
def reasonLine (flags : List Flag) (terminal : Bool) (reason : Text) : Text :=
  (if terminal ∧ .noColor ∉ flags then "\x1b[38;5;9m".toList ++ reason ++ "\x1b[0m".toList
    else reason) ++ ['\n']

/-- The line that gives the time, if it is asked for. -/
def timeLine (flags : List Flag) (elapsed : Nat) : Text :=
  if .timing ∈ flags then "(".toList ++ Nat.toDigits 10 elapsed ++ " ms)\n".toList else []

/-- What a run with some flags leaves behind, if it keeps no log. -/
def announced (flags : List Flag) (terminal : Bool) (elapsed : Nat)
    (prediction : Except PredictionError Text) : Outcome :=
  if .json ∈ flags then
    match prediction with
    | .ok _ => ⟨0, (jsonLines elapsed prediction).flatMap (· ++ ['\n']), []⟩
    | .error _ => ⟨1, (jsonLines elapsed prediction).flatMap (· ++ ['\n']), []⟩
  else
    match prediction with
    | .ok output => ⟨0, output ++ ['\n'], timeLine flags elapsed⟩
    | .error e => ⟨1, [], reasonLine flags terminal e.message ++ timeLine flags elapsed⟩

theorem toJson_ofPrediction (elapsed : Nat) (prediction : Except PredictionError Text) :
    (Report.ofPrediction elapsed prediction).toJson ++ ['\n'] =
      (jsonLines elapsed prediction).flatMap (· ++ ['\n']) := by
  cases prediction with
  | ok output => simp [jsonLines, Report.toJson, Report.ofPrediction, Json.object, Json.bool,
      Json.optionalString, Json.string, Json.escape]
  | error e => simp [jsonLines, Report.toJson, Report.ofPrediction, Json.object, Json.bool,
      Json.optionalString, Json.string, Json.escape]

theorem reasonLine_eq (terminal : Bool) (reason : Text)
    (hcolor : options.noColor = decide (.noColor ∈ flags)) :
    .complaint (if (style options {} terminal).red then Report.inRed reason else reason) =
      (⟨[], reasonLine flags terminal reason⟩ : Streams) := by
  have hred : (style options {} terminal).red ↔ terminal ∧ .noColor ∉ flags := by
    simp [style, Coloring.applies, hcolor, and_comm]
  rw [reasonLine, ← if_congr hred rfl rfl]
  rfl

theorem timeLine_eq (r : Report) (terminal : Bool)
    (htiming : options.timing = decide (.timing ∈ flags)) :
    (if (style options {} terminal).timing then .complaint r.timeLine else .none) =
      (⟨[], timeLine flags r.elapsed⟩ : Streams) := by
  have hasked : (style options {} terminal).timing ↔ .timing ∈ flags := by
    simp [style, htiming]
  by_cases h : Flag.timing ∈ flags
  · rw [if_pos (hasked.2 h), timeLine, if_pos h]
    simp [Streams.complaint, Report.timeLine]
  · rw [if_neg (mt hasked.1 h), timeLine, if_neg h]
    rfl

/-- The report of a prediction, printed in the style that the flags ask for. -/
theorem announced_eq (flags : List Flag) (terminal : Bool) (elapsed : Nat)
    (prediction : Except PredictionError Text) (hjson : options.json = decide (.json ∈ flags))
    (htiming : options.timing = decide (.timing ∈ flags))
    (hcolor : options.noColor = decide (.noColor ∈ flags)) :
    let report := Report.ofPrediction elapsed prediction
    announced flags terminal elapsed prediction =
      ⟨if report.success then 0 else 1, report.render (style options {} terminal)⟩ := by
  intro report
  by_cases hj : Flag.json ∈ flags
  · have hrender : report.render (style options {} terminal) = ⟨report.toJson ++ ['\n'], []⟩ := by
      simp [Report.render, style, hjson, hj]
    rw [hrender, toJson_ofPrediction, announced.eq_def, if_pos hj]
    cases prediction <;> rfl
  · have hrender : report.render (style options {} terminal) =
        report.toText (style options {} terminal) := by
      simp [Report.render, style, hjson, hj]
    rw [hrender, Report.toText, timeLine_eq report terminal htiming, announced.eq_def,
      if_neg hj]
    cases prediction with
    | ok output =>
      show Outcome.mk 0 _ = ⟨0, ⟨output ++ ['\n'] ++ [], timeLine flags elapsed⟩⟩
      rw [List.append_nil]
    | error e =>
      have hreason := reasonLine_eq terminal e.message hcolor
      show Outcome.mk 1 _ = ⟨1, .complaint (if _ then Report.inRed e.message else e.message) ++ _⟩
      rw [hreason]
      rfl

theorem out_announced (hj : .json ∈ flags) (terminal : Bool) (elapsed : Nat)
    (prediction : Except PredictionError Text) :
    (announced flags terminal elapsed prediction).streams.out =
      (Report.ofPrediction elapsed prediction).toJson ++ ['\n'] := by
  rw [announced.eq_def, if_pos hj, toJson_ofPrediction]
  cases prediction <;> rfl

/-- **A run prints what is predicted for its snippet**, whichever way the snippet comes in.  The exit
status is 0 if there is a prediction and 1 if not.  With `-j` there is one JSON object on the output
stream, from which the prediction can be read, and nothing else, whatever the other flags; without, there
is the predicted text on the output stream, or the reason of the failure on the error stream.  If the
environment or the flag `-d` asks for a log, its lines stand in front of the error text. -/
theorem run_eq_announced (h : l.Gives way source name flags) (hname : Language.ofName name = .ok language)
    (hholds : way.Holds host source world) (hterminal : ∀ w, (host.onTerminal w).1 = terminal) :
    ∃ elapsed lines,
      (run host l.text world).1 =
        (announced flags terminal elapsed (predict language source)).logging lines ∧
      (host.log.directives = none → .debug ∉ flags → lines = []) ∧
      (.json ∈ flags → ∃ t,
        (announced flags terminal elapsed (predict language source)).streams.out = t ++ ['\n'] ∧
          Report.ofJson? t = some (Report.ofPrediction elapsed (predict language source))) := by
  have hoptions := h.options_eq hname
  have hparse : parse l.text = .ok l.options := parse_text_eq_ok_iff.2 ⟨h.isAcceptable hname, rfl⟩
  have hread : (readSnippet host l.options world).1 = .ok source :=
    readSnippet_eq (by rw [hoptions]) (by rw [hoptions]) hholds
  have hskip : l.options.settings = .skip := by rw [hoptions]
  obtain ⟨complaints, hrun, hcomplaints⟩ := @exists_run_of_skip _ host world _ _ hparse hskip
  obtain ⟨elapsed, lines, world', hrunWith, hlines⟩ := exists_runWith_eq {} (by rw [hoptions]) hread
  refine ⟨elapsed, complaints ++ lines, ?_, fun hdirectives hdebug => ?_, fun hj => ?_⟩
  · -- what is written about directives comes before what is written about events
    rw [hrun, hrunWith, hterminal, Outcome.logging_logging, announced_eq flags terminal elapsed]
    all_goals rw [hoptions]
  · have hquiet : logDirectives? host.log l.options = none := by
      rw [logDirectives?, hdirectives, hoptions]
      simp [hdebug]
    rw [hcomplaints hquiet, hlines hquiet]
    rfl
  · exact ⟨_, out_announced hj terminal elapsed _, Report.ofJson?_toJson _⟩

/-- The content of a file is read in the language that is named, not in that of the file.  The log would
have something to say. -/
theorem run_eq_announced_file :
    let tree := ({} : FileTree).add ["a.swift".toList] (.file (some "print(1)".toList))
    let host : Host (StateM Nat) :=
      { hasPath := fun path => pure (tree.contains path)
        readFile := fun path => pure (tree.read path)
        readInput := pure (.ok [])
        homes := pure (none, none)
        onTerminal := pure true
        clock := fun now => (now, now + 7)
        log := ⟨none, fun _ => [], fun _ e now => (e.message ++ ['\n'], now + 1)⟩ }
    let way := Delivery.file "a.swift".toList (by decide)
    let l : Line := ⟨[.valued [.json, .timing] (.attached .language 'p' ['y']),
      .file "a.swift".toList (by decide), .valued [] (.settings [])], none⟩
    l.text = ["-jtlpy".toList, "a.swift".toList, "-f".toList] ∧
      l.Gives way "print(1)".toList "py".toList [.timing, .json] ∧
      Language.ofName "py".toList = .ok .python ∧ way.Holds host "print(1)".toList 0 ∧
      (∀ w, (host.onTerminal w).1 = true) ∧
      ∃ elapsed t, (run host l.text 0).1 =
          announced [.timing, .json] true elapsed (predict .python "print(1)".toList) ∧
        (run host l.text 0).1.streams = ⟨t ++ ['\n'], []⟩ ∧
        Report.ofJson? t = some ⟨true, "1".toList, none, elapsed⟩ := by
  intro tree host way l
  have h : l.Gives way "print(1)".toList "py".toList [.timing, .json] := ⟨by decide, rfl⟩
  have hholds : way.Holds host "print(1)".toList 0 := by
    show tree.read "a.swift".toList = .ok "print(1)".toList
    decide
  have hpredict : predict .python "print(1)".toList = .ok "1".toList := by decide
  obtain ⟨elapsed, lines, hrun, hlines, hjson⟩ :=
    @run_eq_announced _ host _ l _ _ _ .python true way h (by decide) hholds fun _ => rfl
  obtain ⟨t, hout, hread⟩ := hjson (by decide)
  obtain rfl : lines = [] := hlines rfl (by decide)
  refine ⟨rfl, h, by decide, hholds, fun _ => rfl, elapsed, t, hrun, ?_, ?_⟩
  · rw [hrun, ← hout]
    rfl
  · rw [hread, hpredict]
    rfl

end Session

end DryRun
