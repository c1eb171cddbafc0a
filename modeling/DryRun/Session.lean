import DryRun.CommandLine
import DryRun.FileTree
import DryRun.Log
import DryRun.Report

/-!
# Sessions

One run of the program: reading the arguments, the settings and the snippet, predicting what the
snippet prints, and printing that.  A run keeps a log on the error stream if the environment or the
option `-d` asks for it.  What a run needs from outside is a `Host`, so that the same run works on a
disk and on a tree of files in memory.
-/

namespace DryRun

/-- What a run needs from outside. -/
structure Host (m : Type → Type) where
  /-- Whether a path leads to anything. -/
  hasPath : Text → m Bool
  /-- The text of a file. -/
  readFile : Text → m (Except ReadError Text)
  /-- The text of standard input. -/
  readInput : m (Except ReadError Text)
  /-- The user's home directory and directory of settings, if they are known. -/
  homes : m (Option Text × Option Text)
  /-- Whether error text goes to a terminal. -/
  onTerminal : m Bool
  /-- A clock that counts milliseconds. -/
  clock : m Nat
  log : Log m

/-- A host that works on a tree of files and keeps no log. -/
def FileTree.host (tree : FileTree) (input : Except ReadError Text) (home : Option Text) :
    Host Id where
  hasPath path := tree.contains path
  readFile path := tree.read path
  readInput := input
  homes := (home, none)
  onTerminal := false
  clock := 0
  log := .none

/-- What a run leaves behind: its exit status and what it prints. -/
structure Outcome where
  status : Nat
  streams : Streams
deriving DecidableEq, Repr

namespace Session

/-- A line of the program for the error stream. -/
def complaint (t : Text) : Streams := .complaint ("snipsim: ".toList ++ t)

/-- A warning of the program. -/
def warning (t : Text) : Streams := complaint ("warning: ".toList ++ t)

/-- A text about a file. -/
def about (path t : Text) : Text := path ++ ": ".toList ++ t

/-- The warnings about the lines of a file of settings that cannot be used. -/
def lineWarnings (path : Text) (errors : List Settings.LineError) : Streams :=
  ⟨[], errors.flatMap fun e => (warning (about path e.message)).err⟩

/-- The outcome of a run that cannot be made sense of. -/
def misuse (message : Text) : Outcome :=
  ⟨2, complaint message ++ .complaint CommandLine.usage⟩

variable {m : Type → Type} [Monad m]

/-- The first path that leads to anything. -/
def firstPath? (host : Host m) : List Text → m (Option Text)
  | [] => return none
  | path :: more => do
    if ← host.hasPath path then return some path else firstPath? host more

/-- The settings of a run, with warnings about them; or, if a file was asked for and cannot be read,
what to print about that. -/
def loadSettings (host : Host m) : SettingsSource → m (Except Streams (Settings × Streams))
  | .skip => return .ok ({}, .none)
  | .explicit path => do
    match ← host.readFile path with
    | .error e => return .error (complaint (about path e.message))
    | .ok t =>
      let (settings, errors) := Settings.ofText t
      return .ok (settings, lineWarnings path errors)
  | .search => do
    let (home, settingsHome) ← host.homes
    match ← firstPath? host (Settings.usualPlaces home settingsHome) with
    | none => return .ok ({}, .none)
    | some path =>
      match ← host.readFile path with
      | .error e => return .ok ({}, warning (about path e.message))
      | .ok t =>
        let (settings, errors) := Settings.ofText t
        return .ok (settings, lineWarnings path errors)

/-- The language of a run: the one asked for, else that of the snippet's file, else the user's. -/
def language? (options : Options) (settings : Settings) : Option Language :=
  options.language <|> options.file.bind Language.ofPath? <|> settings.language

/-- The snippet of a run, or what to print if it cannot be read. -/
def readSnippet (host : Host m) (options : Options) : m (Except Streams Text) := do
  match options.code, options.file with
  | some code, _ => return .ok code
  | none, some path =>
    match ← host.readFile path with
    | .ok t => return .ok t
    | .error e => return .error (complaint (about path e.message))
  | none, none =>
    match ← host.readInput with
    | .ok t => return .ok t
    | .error e => return .error (complaint e.message)

/-- The directives for the log of a run, if it keeps one: those of the environment, else with `-d` all
but the most detailed events of the program. -/
def logDirectives? (log : Log m) (options : Options) : Option Text :=
  log.directives <|> if options.debug then some "snipsim=debug".toList else none

/-- What the log says about some events. -/
def account (log : Log m) (directives : Text) (events : List Event) : m Text := do
  return (← events.mapM (log.entry directives)).flatten

/-- How a run prints its report. -/
def style (options : Options) (settings : Settings) (terminal : Bool) : Report.Style where
  format := if options.json then .json else settings.format
  red := !options.noColor && settings.color.applies terminal
  timing := options.timing || settings.timing

/-- A run with its options and settings: the prediction and its report. -/
def runWith (host : Host m) (options : Options) (settings : Settings) : m Outcome := do
  match language? options settings with
  | none => return misuse "no language given (use -l<lang> or a file extension)".toList
  | some language =>
    match ← readSnippet host options with
    | .error streams => return ⟨2, streams⟩
    | .ok source =>
      let started ← host.clock
      let prediction := predict language source
      let lines ← match logDirectives? host.log options with
        | none => pure []
        | some directives => account host.log directives (Event.ofPrediction language source)
      let ended ← host.clock
      let terminal ← host.onTerminal
      let report := Report.ofPrediction (ended - started) prediction
      return ⟨if report.success then 0 else 1,
        ⟨[], lines⟩ ++ report.render (style options settings terminal)⟩

/-- A run with the given arguments. -/
def run (host : Host m) (arguments : List Text) : m Outcome := do
  match CommandLine.parse arguments with
  | .error e => return misuse e.message
  | .ok options =>
    let complaints := ((logDirectives? host.log options).map host.log.complaints).getD []
    match ← loadSettings host options.settings with
    | .error streams => return ⟨2, ⟨[], complaints⟩ ++ streams⟩
    | .ok (settings, warnings) =>
      let outcome ← runWith host options settings
      return { outcome with streams := ⟨[], complaints⟩ ++ (warnings ++ outcome.streams) }

end Session

end DryRun
