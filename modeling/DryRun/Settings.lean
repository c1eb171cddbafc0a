import DryRun.Language

/-!
# Settings

The settings a user may keep in a file, one `key = value` to a line.  A line that cannot be used is
reported with its number and changes nothing.  Of the lines that set the same thing, the last usable
one counts.
-/

namespace DryRun

/-- When to print error text in colour. -/
inductive Coloring where
  /-- Only on a terminal. -/
  | auto
  | always
  | never
deriving DecidableEq, Repr

/-- How to print a result. -/
inductive ReportFormat where
  | text
  | json
deriving DecidableEq, Repr

/-- Why a line of settings cannot be used. -/
inductive SettingError where
  | unknownLanguage (e : UnknownLanguage)
  | badFlag (value : Text)
  | badColor (value : Text)
  | badFormat (value : Text)
  | unknownKey (key : Text)
  /-- The line has no `=`. -/
  | noValue (line : Text)
deriving DecidableEq, Repr

def SettingError.message : SettingError → Text
  | unknownLanguage e => e.message
  | badFlag value => "expected on/off, got `".toList ++ value ++ "`".toList
  | badColor value => "invalid color mode: ".toList ++ value
  | badFormat value => "invalid format: ".toList ++ value
  | unknownKey key => "unknown setting: ".toList ++ key
  | noValue line => "expected `key = value`, got `".toList ++ line ++ "`".toList

/-! ### Values -/

/-- The way of colouring with this name. -/
def Coloring.ofName (t : Text) : Except SettingError Coloring :=
  if t.toLower = "auto".toList then .ok auto
  else if t.toLower = "always".toList ∨ t.toLower = "on".toList then .ok always
  else if t.toLower = "never".toList ∨ t.toLower = "off".toList then .ok never
  else .error (.badColor t)

/-- The name of a way of colouring. -/
def Coloring.name : Coloring → Text
  | auto => "auto".toList
  | always => "always".toList
  | never => "never".toList

/-- Whether to use colour on a stream that is or is not a terminal. -/
def Coloring.applies (mode : Coloring) (terminal : Bool) : Bool :=
  match mode with
  | auto => terminal
  | always => true
  | never => false

/-- The output format with this name. -/
def ReportFormat.ofName (t : Text) : Except SettingError ReportFormat :=
  if t.toLower = "text".toList then .ok text
  else if t.toLower = "json".toList then .ok json
  else .error (.badFormat t)

/-- The name of an output format. -/
def ReportFormat.name : ReportFormat → Text
  | text => "text".toList
  | json => "json".toList

/-- What a word for on or off means. -/
def flagOfName (t : Text) : Except SettingError Bool :=
  if ["on".toList, "true".toList, "yes".toList, "1".toList].contains t.toLower then .ok true
  else if ["off".toList, "false".toList, "no".toList, "0".toList].contains t.toLower then .ok false
  else .error (.badFlag t)

/-! ### Settings and their changes -/

/-- What a user can set. -/
structure Settings where
  /-- The language to use where nothing else decides. -/
  language : Option Language := none
  /-- Whether to print the time a prediction took. -/
  timing : Bool := false
  color : Coloring := .auto
  format : ReportFormat := .text
deriving DecidableEq, Repr

/-- A change to one setting. -/
inductive Setting where
  | language (value : Language)
  | timing (value : Bool)
  | color (value : Coloring)
  | format (value : ReportFormat)
deriving DecidableEq, Repr

namespace Setting

/-- The change that a key, in large or small letters, and a value ask for. -/
def ofPair (key value : Text) : Except SettingError Setting :=
  if key.toLower = "language".toList ∨ key.toLower = "lang".toList then
    match Language.ofName value with
    | .ok l => .ok (language l)
    | .error e => .error (.unknownLanguage e)
  else if key.toLower = "timing".toList then timing <$> flagOfName value
  else if key.toLower = "color".toList ∨ key.toLower = "colour".toList then
    color <$> Coloring.ofName value
  else if key.toLower = "format".toList then format <$> ReportFormat.ofName value
  else .error (.unknownKey key)

/-- The settings after a change. -/
def apply (s : Settings) : Setting → Settings
  | language value => { s with language := some value }
  | timing value => { s with timing := value }
  | color value => { s with color := value }
  | format value => { s with format := value }

end Setting

namespace Settings

/-- The settings after what a key and a value ask for. -/
def set (s : Settings) (key value : Text) : Except SettingError Settings :=
  (Setting.ofPair key value).map (Setting.apply s)

/-! ### Lines -/

/-- A value without the quotes around it, if there is one of a kind at each end. -/
def withoutQuotes (t : Text) : Text := (t.unwrap? '"' <|> t.unwrap? '\'').getD t

/-- The change that a line asks for; none for a blank line or a comment. -/
def readLine (line : Text) : Except SettingError (Option Setting) :=
  match line.trim with
  | [] => .ok none
  | c :: rest =>
    if c = '#' ∨ c = ';' then .ok none
    else
      match Text.splitOnce '=' (c :: rest) with
      | none => .error (.noValue (c :: rest))
      | some (key, value) => some <$> Setting.ofPair key.trim (withoutQuotes value.trim)

/-- A line that cannot be used. -/
structure LineError where
  /-- The number of the line, counted from 1. -/
  line : Nat
  cause : SettingError
deriving DecidableEq, Repr

def LineError.message (e : LineError) : Text :=
  "line ".toList ++ Nat.toDigits 10 e.line ++ ": ".toList ++ e.cause.message

/-- The settings after some lines, the first of which has the number `line`, and the lines among
them that cannot be used. -/
def readLines (s : Settings) (line : Nat) : List Text → Settings × List LineError
  | [] => (s, [])
  | t :: rest =>
    match readLine t with
    | .ok none => readLines s (line + 1) rest
    | .ok (some change) => readLines (change.apply s) (line + 1) rest
    | .error cause =>
      let (s, errors) := readLines s (line + 1) rest
      (s, ⟨line, cause⟩ :: errors)

/-- The settings that a text gives, and its lines that cannot be used. -/
def ofText (t : Text) : Settings × List LineError := readLines {} 1 t.lines

/-! ### Files -/

/-- The path of a name in a directory. -/
def inDirectory (directory name : Text) : Text :=
  match directory.getLast? with
  | none => name
  | some '/' => directory ++ name
  | some _ => directory ++ '/' :: name

/-- The files that may hold a user's settings, best first, for the user's home directory and
directory of settings.  Only an absolute directory of settings counts; without one it is `.config`
at home. -/
def usualPlaces (home settingsHome : Option Text) : List Text :=
  let home := home.filter fun t => !t.isEmpty
  let directory :=
    settingsHome.filter (fun t => t.head? == some '/') <|>
      home.map fun t => inDirectory t ".config".toList
  let inHome := home.map fun t => inDirectory t ".snipsimrc".toList
  let inSettings := directory.map fun t =>
    inDirectory (inDirectory t "snipsim".toList) "snipsimrc".toList
  inHome.toList ++ inSettings.toList ++ ["./.snipsimrc".toList]

end Settings

end DryRun
