import DryRun.Language

/-!
# The command line

Arguments are clusters of option letters, values of options, and file names.  The letters `d`, `j`,
`n` and `t` are flags.  The letters `c` and `l` take the rest of their cluster as their value or, at
the end of a cluster, the whole next argument; `f` takes the rest of its cluster, which may be
empty.  What is given twice counts as given last.  After `--` every argument is a file name.
-/

namespace DryRun

/-- Where settings come from. -/
inductive SettingsSource where
  /-- The first file found in the usual places. -/
  | search
  /-- Nowhere. -/
  | skip
  /-- This file. -/
  | explicit (path : Text)
deriving DecidableEq, Repr

/-- What a command line asks for. -/
structure Options where
  language : Option Language := none
  /-- The snippet itself. -/
  code : Option Text := none
  /-- The file that holds the snippet; without it and without `code`, standard input does. -/
  file : Option Text := none
  settings : SettingsSource := .search
  json : Bool := false
  timing : Bool := false
  noColor : Bool := false
  debug : Bool := false
deriving DecidableEq, Repr

/-- Why a command line asks for nothing sensible. -/
inductive UsageError where
  | unknownLanguage (e : UnknownLanguage)
  | missingCode
  | missingLanguage
  | unknownOption (letter : Char)
  | tooManyFiles (count : Nat)
  | codeAndFile
deriving DecidableEq, Repr

def UsageError.message : UsageError → Text
  | unknownLanguage e => e.message
  | missingCode => "-c requires a code argument".toList
  | missingLanguage => "-l requires a language argument".toList
  | unknownOption letter => "unknown option: -".toList ++ [letter]
  | tooManyFiles count => "too many arguments (".toList ++ Nat.toDigits 10 count ++ ")".toList
  | codeAndFile => "-c and a snippet file are mutually exclusive".toList

namespace CommandLine

/-- How to call the program. -/
def usage : Text :=
  "Usage: snipsim [-l<lang>] [-c<code>] [-f[<file>]] [-jtnd] [<file>]".toList

/-! ### Reading arguments one by one -/

/-- What the next argument is. -/
inductive Expected where
  /-- A cluster of options or a file name. -/
  | any
  /-- The value of `c`. -/
  | code
  /-- The value of `l`. -/
  | language
  /-- A file name. -/
  | file
deriving DecidableEq, Repr

/-- What the arguments so far ask for. -/
structure State where
  options : Options := {}
  /-- The file names, latest first. -/
  files : List Text := []
  expected : Expected := .any
deriving DecidableEq, Repr

/-- The state after a language is named. -/
def State.setLanguage (s : State) (name : Text) : Except UsageError State :=
  match Language.ofName name with
  | .ok l => .ok { s with options.language := some l, expected := .any }
  | .error e => .error (.unknownLanguage e)

/-- The state after the letters of a cluster. -/
def readCluster (s : State) : Text → Except UsageError State
  | [] => .ok s
  | letter :: rest =>
    if letter = 'd' then readCluster { s with options.debug := true } rest
    else if letter = 'j' then readCluster { s with options.json := true } rest
    else if letter = 'n' then readCluster { s with options.noColor := true } rest
    else if letter = 't' then readCluster { s with options.timing := true } rest
    else if letter = 'f' then
      .ok { s with options.settings := if rest = [] then .skip else .explicit rest }
    else if letter = 'c' then
      if rest = [] then .ok { s with expected := .code }
      else .ok { s with options.code := some rest }
    else if letter = 'l' then
      if rest = [] then .ok { s with expected := .language } else s.setLanguage rest
    else .error (.unknownOption letter)

/-- The state after one more argument.  `-` alone is a file name. -/
def readArgument (s : State) (argument : Text) : Except UsageError State :=
  match s.expected with
  | .code => .ok { s with options.code := some argument, expected := .any }
  | .language => s.setLanguage argument
  | .file => .ok { s with files := argument :: s.files }
  | .any =>
    match argument with
    | ['-', '-'] => .ok { s with expected := .file }
    | '-' :: letter :: rest => readCluster s (letter :: rest)
    | _ => .ok { s with files := argument :: s.files }

/-- What the arguments ask for once all are read.  The file name `-` means standard input. -/
def finish (s : State) : Except UsageError Options :=
  match s.expected with
  | .code => .error .missingCode
  | .language => .error .missingLanguage
  | _ =>
    match s.files with
    | [] => .ok s.options
    | [file] =>
      if file = ['-'] then .ok s.options
      else if s.options.code.isSome then .error .codeAndFile
      else .ok { s.options with file := some file }
    | files => .error (.tooManyFiles files.length)

/-- What a list of arguments asks for. -/
def parse (arguments : List Text) : Except UsageError Options :=
  arguments.foldlM readArgument {} >>= finish

end CommandLine

end DryRun
