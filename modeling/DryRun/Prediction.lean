import DryRun.Declaration
import DryRun.Output

/-!
# Predictions

What a snippet prints, told without running it: comments are dropped, names get their values from
declarations and calls, and the calls that print are rendered one after the other.
-/

namespace DryRun

/-- Why no text can be predicted. -/
inductive PredictionError where
  | unknownLanguage (e : UnknownLanguage)
  /-- The snippet has no call that prints. -/
  | noOutput (language : Language)
deriving DecidableEq, Repr

/-- The usual way to print a line in a language. -/
def Language.printExample : Language → Text
  | .kotlin => "println(...)".toList
  | .java => "System.out.println(...)".toList
  | .python => "print(...)".toList
  | .javaScript => "console.log(...)".toList
  | .swift => "print(...)".toList

def PredictionError.message : PredictionError → Text
  | unknownLanguage e => e.message
  | noOutput language =>
    "No output statement found: add a ".toList ++ language.printExample ++
      " call to see output".toList

/-- The values that the names of a text without comments have when it prints. -/
def boundIn (language : Language) (t : Text) : Bindings :=
  (declared language t).afterCalls language t

/-- The values that the names of a snippet have when it prints. -/
def bindingsOf (language : Language) (source : Text) : Bindings :=
  boundIn language (withoutComments language source)

/-- A text without the line feed it ends in. -/
def dropFinalBreak (t : Text) : Text := if t.getLast? = some '\n' then t.dropLast else t

/-- What a snippet prints, without the line feed at the end. -/
def predict (language : Language) (source : Text) : Except PredictionError Text :=
  let t := withoutComments language source
  let calls := printCalls language t
  if calls.isEmpty then .error (.noOutput language)
  else .ok (dropFinalBreak (calls.flatMap (PrintCall.printed language (boundIn language t))))

/-- What a snippet in a language given by name prints. -/
def predictByName (name source : Text) : Except PredictionError Text :=
  match Language.ofName name with
  | .ok language => predict language source
  | .error e => .error (.unknownLanguage e)

end DryRun
