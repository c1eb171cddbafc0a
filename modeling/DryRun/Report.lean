import DryRun.Prediction
import DryRun.Settings

/-!
# Reports

How the outcome of a prediction is printed: as plain text, with the reason of a failure on the error
stream, or as a JSON object.
-/

namespace DryRun

/-- Text for the two streams of a program. -/
structure Streams where
  out : Text
  err : Text
deriving DecidableEq, Repr

namespace Streams

/-- No text. -/
def none : Streams := ⟨[], []⟩

/-- A line for the error stream. -/
def complaint (t : Text) : Streams := ⟨[], t ++ ['\n']⟩

/-- One text after another. -/
instance : Append Streams := ⟨fun s t => ⟨s.out ++ t.out, s.err ++ t.err⟩⟩

end Streams

/-! ### JSON -/

namespace Json

/-- The digit of a number below 16. -/
def hexDigit (n : Nat) : Char := Nat.digitChar n

/-- A character as it stands in a JSON string.  Control characters of ASCII are escaped, and all
others but the quote and the backslash stand for themselves. -/
def escape (c : Char) : Text :=
  if c = '"' then ['\\', '"']
  else if c = '\\' then ['\\', '\\']
  else if c = '\n' then ['\\', 'n']
  else if c = '\r' then ['\\', 'r']
  else if c = '\t' then ['\\', 't']
  else if c = '\x08' then ['\\', 'b']
  else if c = '\x0c' then ['\\', 'f']
  else if c.toNat < 32 then
    ['\\', 'u', '0', '0', hexDigit (c.toNat / 16), hexDigit (c.toNat % 16)]
  else [c]

/-- A JSON string. -/
def string (t : Text) : Text := '"' :: t.flatMap escape ++ ['"']

/-- A JSON truth value. -/
def bool (b : Bool) : Text := if b then "true".toList else "false".toList

/-- A JSON string, or `null`. -/
def optionalString : Option Text → Text
  | some t => string t
  | .none => "null".toList

/-- A JSON object with one field to a line. -/
def object (fields : List (Text × Text)) : Text :=
  let line : Text × Text → Text := fun (name, value) =>
    "  ".toList ++ string name ++ ": ".toList ++ value
  "\x7b\n".toList ++ ",\n".toList.intercalate (fields.map line) ++ "\n\x7d".toList

end Json

/-! ### Reports -/

/-- The outcome of a prediction, with the time it took. -/
structure Report where
  success : Bool
  output : Text
  error : Option Text
  /-- The time in milliseconds. -/
  elapsed : Nat
deriving DecidableEq, Repr

namespace Report

/-- The report of a prediction. -/
def ofPrediction (elapsed : Nat) : Except PredictionError Text → Report
  | .ok output => ⟨true, output, none, elapsed⟩
  | .error e => ⟨false, [], some e.message, elapsed⟩

/-- How to print a report. -/
structure Style where
  format : ReportFormat
  /-- Whether error text is red. -/
  red : Bool
  /-- Whether plain text is followed by the time. -/
  timing : Bool
deriving DecidableEq, Repr

/-- A text in red on a terminal. -/
def inRed (t : Text) : Text := "\x1b[38;5;9m".toList ++ t ++ "\x1b[0m".toList

/-- A report as a JSON object. -/
def toJson (r : Report) : Text :=
  Json.object [
    ("success".toList, Json.bool r.success),
    ("output".toList, Json.string r.output),
    ("errorMessage".toList, Json.optionalString r.error),
    ("executionTimeMs".toList, Nat.toDigits 10 r.elapsed)]

/-- The reason of a failure. -/
def reason (r : Report) : Text := r.error.getD "simulation failed".toList

/-- The line that gives the time. -/
def timeLine (r : Report) : Text := '(' :: Nat.toDigits 10 r.elapsed ++ " ms)".toList

/-- A report as plain text. -/
def toText (style : Style) (r : Report) : Streams :=
  (if r.success then ⟨r.output ++ ['\n'], []⟩
    else .complaint (if style.red then inRed r.reason else r.reason)) ++
  if style.timing then .complaint r.timeLine else .none

/-- A report in a given style. -/
def render (style : Style) (r : Report) : Streams :=
  match style.format with
  | .json => ⟨r.toJson ++ ['\n'], []⟩
  | .text => r.toText style

end Report

end DryRun
