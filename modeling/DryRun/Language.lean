import DryRun.Text

/-!
# Languages

The languages whose snippets can be predicted, with their names, tags and file extensions.
-/

namespace DryRun

/-- A language of snippets. -/
inductive Language where
  | kotlin | java | python | javaScript | swift
deriving DecidableEq, Repr

/-- A name that belongs to no language. -/
structure UnknownLanguage where
  /-- The name as it was given. -/
  name : Text
deriving DecidableEq, Repr

namespace UnknownLanguage

def message (e : UnknownLanguage) : Text :=
  "Language '".toList ++ e.name ++ "' is not supported".toList

end UnknownLanguage

namespace Language

/-- All languages. -/
def all : List Language := [kotlin, java, python, javaScript, swift]

/-- The position of a language in `all`. -/
def index : Language → Nat
  | kotlin => 0
  | java => 1
  | python => 2
  | javaScript => 3
  | swift => 4

/-- The tag by which a language is known in data. -/
def tag : Language → Text
  | kotlin => "KOTLIN".toList
  | java => "JAVA".toList
  | python => "PYTHON".toList
  | javaScript => "JAVASCRIPT".toList
  | swift => "SWIFT".toList

/-- The small-letter names by which a language may be given. -/
def names : Language → List Text
  | kotlin => ["kotlin".toList, "kt".toList, "kts".toList]
  | java => ["java".toList]
  | python => ["python".toList, "py".toList, "python3".toList]
  | javaScript => ["javascript".toList, "js".toList, "node".toList, "ecmascript".toList]
  | swift => ["swift".toList]

/-- The small-letter extensions of a language's files. -/
def extensions : Language → List Text
  | kotlin => ["kt".toList, "kts".toList]
  | java => ["java".toList]
  | python => ["py".toList]
  | javaScript => ["js".toList, "mjs".toList, "cjs".toList]
  | swift => ["swift".toList]

/-- The language with exactly this tag. -/
def ofTag? (t : Text) : Option Language := all.find? (·.tag = t)

/-- The language with this name, in large or small letters and with white space around it. -/
def ofName (t : Text) : Except UnknownLanguage Language :=
  match all.find? fun l => l.names.contains t.trim.toLower with
  | some l => .ok l
  | none => .error ⟨t⟩

/-! ### File names -/

/-- The parts of a path between its slashes, except those that name no further step. -/
def steps (path : Text) : List Text :=
  (path.splitOn '/').filter fun step => step ≠ [] ∧ step ≠ ['.']

/-- The extension of a file name: what follows its last dot, unless that dot begins the name. -/
def extension? (name : Text) : Option Text :=
  match Text.splitOnce '.' name.reverse with
  | some (ending, start) => if start = [] then none else some ending.reverse
  | none => none

/-- The language that the extension of a path's last step stands for. -/
def ofPath? (path : Text) : Option Language := do
  let name ← (steps path).getLast?
  if name = ['.', '.'] then none
  else
    let ending ← extension? name
    all.find? fun l => l.extensions.contains ending.toLower

end Language

end DryRun
