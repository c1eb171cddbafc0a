import DryRun.Session

/-!
# The program

The run of a session on the disk and the standard streams, with a log of its events.
-/

namespace DryRun

/-- A reason in the words of the system, with its number. -/
def ReadError.ofSystem (details : String) (code : UInt32) : ReadError :=
  .other (details.toList ++ " (os error ".toList ++ Nat.toDigits 10 code.toNat ++ [')'])

/-- Why the system could not read something. -/
def ReadError.ofIO : IO.Error → ReadError
  | .noFileOrDirectory .. => .notFound
  | .inappropriateType _ 21 _ => .isADirectory
  | .inappropriateType .. => .notADirectory
  | .permissionDenied _ code details => .ofSystem details code
  | .invalidArgument _ code details => .ofSystem details code
  | .resourceExhausted _ code details => .ofSystem details code
  | e => .other (toString e).toList

/-- The text that some bytes hold. -/
def decodeText (bytes : ByteArray) : Except ReadError Text :=
  match String.fromUTF8? bytes with
  | some s => .ok s.toList
  | none => .error .notUtf8

/-- Reads everything up to the end of a stream. -/
partial def readAll (stream : IO.FS.Stream) (sofar : ByteArray) : IO ByteArray := do
  let bytes ← stream.read 65536
  if bytes.isEmpty then return sofar else readAll stream (sofar ++ bytes)

/-! ### The log -/

/-- How detailed an account is to which a directive's word refers. -/
def detailOf? (word : Text) : Option Nat :=
  ["off", "error", "warn", "info", "debug", "trace"].findIdx? fun name => name.toList = word.toLower

/-- The beginning of the targets that a directive such as `snipsim=debug` is about, and how detailed an
account of them it asks for. -/
def directive? (t : Text) : Option (Text × Nat) :=
  match t.splitOnce '=' with
  | some (target, word) => (detailOf? word).map fun detail => (target, detail)
  | none =>
    match detailOf? t with
    | some detail => some ([], detail)
    | none => some (t, 5)

/-- Whether directives ask for an event.  Of those about its target the longest one decides. -/
def Event.isAskedFor (directives : Text) (e : Event) : Bool :=
  let about := ((directives.splitOn ',').filterMap directive?).filter fun d => d.1.isPrefixOf e.target
  let longest := about.foldl (fun (d d' : Text × Nat) => if d.1.length ≤ d'.1.length then d' else d) ([], 1)
  let detail := match e.detail with
    | .debug => 4
    | .trace => 5
  detail ≤ longest.2

/-- An event as a line. -/
def Event.text (e : Event) : Text :=
  let detail := match e.detail with
    | .debug => "DEBUG ".toList
    | .trace => "TRACE ".toList
  let value : LoggedValue → Text
    | .quoted t => (String.ofList t).quote.toList
    | .plain t => t
    | .count n => Nat.toDigits 10 n
  let field : Text × LoggedValue → Text := fun (name, v) => ' ' :: name ++ '=' :: value v
  detail ++ e.target ++ ": ".toList ++ e.message ++ e.fields.flatMap field ++ ['\n']

/-- A log for the error stream, with one line to an event.  It knows directives about targets only, and
passes over all others. -/
def streamLog (directives : Option Text) : Log IO where
  directives := directives
  complaints _ := []
  entry directives e := return if e.isAskedFor directives then e.text else []

/-! ### The host -/

/-- The host that works on the disk, with the directives that the environment has for the log. -/
def diskHost (directives : Option Text) : Host IO where
  hasPath path := do
    match ← (IO.FS.realPath (String.ofList path)).toBaseIO with
    | .ok _ => return true
    | .error _ => return false
  readFile path := do
    match ← (IO.FS.readBinFile (String.ofList path)).toBaseIO with
    | .ok bytes => return decodeText bytes
    | .error e => return .error (.ofIO e)
  readInput := do
    match ← (do readAll (← IO.getStdin) .empty : IO ByteArray).toBaseIO with
    | .ok bytes => return decodeText bytes
    | .error e => return .error (.ofIO e)
  homes := do
    let home ← IO.getEnv "HOME"
    let settingsHome ← IO.getEnv "XDG_CONFIG_HOME"
    return (home.map String.toList, settingsHome.map String.toList)
  onTerminal := do (← IO.getStderr).isTty
  clock := IO.monoMsNow
  log := streamLog directives

end DryRun

open DryRun in
/-- Predicts what a snippet prints. -/
def main (arguments : List String) : IO UInt32 := do
  let directives ← IO.getEnv "RUST_LOG"
  let outcome ← Session.run (diskHost (directives.map String.toList)) (arguments.map String.toList)
  let out ← IO.getStdout
  let err ← IO.getStderr
  out.putStr (String.ofList outcome.streams.out)
  out.flush
  err.putStr (String.ofList outcome.streams.err)
  err.flush
  return UInt32.ofNat outcome.status
