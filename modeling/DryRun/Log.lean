import DryRun.Prediction

/-!
# The log

What the program tells about its own work, for whoever looks into it: the steps of a prediction in the
order in which they are taken.  Which of them a log writes, and how, is up to the log.
-/

namespace DryRun

/-! ### Events -/

/-- The least detailed account to which an event belongs. -/
inductive Detail where
  | debug | trace
deriving DecidableEq, Repr

/-- A value that an event mentions. -/
inductive LoggedValue where
  /-- A text, set apart from what stands around it. -/
  | quoted (t : Text)
  /-- A text as it is. -/
  | plain (t : Text)
  | count (n : Nat)
deriving DecidableEq, Repr

/-- Something that the program does. -/
structure Event where
  detail : Detail
  /-- The part of the program that does it. -/
  target : Text
  message : Text
  fields : List (Text × LoggedValue)
deriving DecidableEq, Repr

/-- What a run writes its account to. -/
structure Log (m : Type → Type) where
  /-- Directives in the environment that say which events to write, if there are any. -/
  directives : Option Text
  /-- What is written about directives that make no sense. -/
  complaints : Text → Text
  /-- What is written about an event, if directives ask for it. -/
  entry : Text → Event → m Text

/-- A log that is not asked for by the environment and writes nothing. -/
def Log.none : Log Id where
  directives := .none
  complaints _ := []
  entry _ _ := []

/-! ### Names that get a value -/

/-- Those of several declarations that give their name its value, as it has none yet. -/
def Bindings.newAmong (b : Bindings) : List (Text × Text) → List (Text × Text)
  | [] => []
  | (name, value) :: l =>
    if b.contains name then b.newAmong l else (name, value) :: (b.insert name value).newAmong l

namespace Call

/-- A value that a call gives a parameter of a function. -/
structure Gift where
  function : Text
  name : Text
  value : Text
deriving DecidableEq, Repr

/-- The bindings after a gift. -/
def Gift.insertInto (b : Bindings) (g : Gift) : Bindings := b.insert g.name g.value

/-- What is given step by step, each step knowing what was given before. -/
def giftsFrom {α : Type} (gifts : Bindings → α → List Gift) (b : Bindings) : List α → List Gift
  | [] => []
  | a :: l => gifts b a ++ giftsFrom gifts ((gifts b a).foldl Gift.insertInto b) l

/-- What an argument in some position gives. -/
def argumentGift? (language : Language) (s : Signature) (b : Bindings) (argument : Text)
    (position : Nat) : Option Gift := do
  let (p, text) ← target? language s argument position
  let value ← value? b text
  return ⟨s.name, p.name, value⟩

/-- What a possible call gives. -/
def siteGifts (language : Language) (functions : List Signature) (b : Bindings) (m : Match) :
    List Gift :=
  match callee? functions m, Nesting.arguments? m.rest with
  | some s, some (arguments, _) =>
    giftsFrom (fun b (argument, position) => (argumentGift? language s b argument position).toList) b
      (Nesting.split false arguments).zipIdx
  | _, _ => []

/-- What all calls in a text give. -/
def gifts (language : Language) (b : Bindings) (t : Text) : List Gift :=
  let functions := signatures language t
  if functions.isEmpty then [] else giftsFrom (siteGifts language functions) b (site.findAll t)

end Call

/-! ### The account of a prediction -/

namespace Event

/-- A name gets a value by a declaration. -/
def declaration (kind : String) : Text × Text → Event
  | (name, value) => {
      detail := .trace
      target := "snipsim::snippet::extract".toList
      message := kind.toList ++ " declaration".toList
      fields := [("name".toList, .quoted name), ("value".toList, .quoted value)] }

/-- A parameter gets a value by a call. -/
def call (g : Call.Gift) : Event where
  detail := .trace
  target := "snipsim::snippet::calls".toList
  message := "call-site binding".toList
  fields := [("function".toList, .quoted g.function), ("param".toList, .quoted g.name),
    ("value".toList, .plain g.value)]

/-- A step of a prediction, with what it is about. -/
def step (detail : Detail) (message : String) (fields : List (String × LoggedValue)) : Event where
  detail := detail
  target := "snipsim::snippet::simulate".toList
  message := message.toList
  fields := fields.map fun (name, value) => (name.toList, value)

/-- The names of a text get their values. -/
def ofBinding (language : Language) (t : Text) : List Event :=
  let strings := Declaration.strings language t
  let numbers := (Bindings.ofList strings).newAmong (Declaration.numbers language t)
  let bindings := boundIn language t
  strings.map (declaration "string") ++ numbers.map (declaration "numeric") ++
    (Call.gifts language (declared language t) t).map call ++
    step .debug "bindings resolved"
      [("language", .plain language.tag), ("bindings", .count bindings.size)] ::
    bindings.toList.map fun (name, value) =>
      step .trace "binding" [("name", .quoted name), ("value", .quoted value)]

/-- The text of a call without the line feeds at its end. -/
def line (language : Language) (b : Bindings) (call : PrintCall) : Text :=
  ((call.printed language b).reverse.dropWhile (· == '\n')).reverse

/-- The calls of a text are printed. -/
def ofPrinting (language : Language) (t : Text) : List Event :=
  match printCalls language t with
  | [] => [step .debug "no output calls" [("language", .plain language.tag)]]
  | calls =>
    step .debug "output calls found"
      [("language", .plain language.tag), ("calls", .count calls.length)] ::
    calls.map fun call => step .trace "rendered"
      [("call", .quoted call.name), ("line", .plain (line language (boundIn language t) call))]

/-- What happens in a prediction, in its order. -/
def ofPrediction (language : Language) (source : Text) : List Event :=
  let t := withoutComments language source
  ofBinding language t ++ ofPrinting language t

end Event

end DryRun
