import DryRun.Report
import DryRun.Proofs.Numeral
import Mathlib.Tactic.SplitIfs

/-!
# Reports as JSON

A reader of JSON that knows nothing of how reports are written: it reads strings character by character and
an object field by field, and passes over white space.  It gets every value back from its text
(`value?_text`), so it gets a report back as it was (`Report.ofJson?_toJson`).
-/

namespace DryRun

namespace Json

/-! ### Reading strings -/

/-- The character that a backslash and a letter stand for. -/
def escaped? : Char → Option Char
  | '"' => some '"'
  | '\\' => some '\\'
  | '/' => some '/'
  | 'b' => some '\x08'
  | 'f' => some '\x0c'
  | 'n' => some '\n'
  | 'r' => some '\r'
  | 't' => some '\t'
  | _ => none

/-- The value of a hexadecimal digit. -/
def hexValue? (c : Char) : Option Nat :=
  "0123456789abcdef".toList.findIdx? fun d => d = c.toLower

/-- The character that four hexadecimal digits stand for. -/
def ofCode? (a b c d : Char) : Option Char := do
  let n := ((← hexValue? a) * 16 + (← hexValue? b)) * 256 + (← hexValue? c) * 16 + (← hexValue? d)
  if n.isValidChar then some (Char.ofNat n) else none

/-- The characters up to the quote that ends a string, and the text behind it. -/
def stringFrom : Text → Option (Text × Text)
  | [] => none
  | '"' :: rest => some ([], rest)
  | '\\' :: 'u' :: a :: b :: c :: d :: rest => do
    let x ← ofCode? a b c d
    (stringFrom rest).map fun (t, rest) => (x :: t, rest)
  | '\\' :: c :: rest => do
    let x ← escaped? c
    (stringFrom rest).map fun (t, rest) => (x :: t, rest)
  | c :: rest =>
    if c.toNat < 32 then none else (stringFrom rest).map fun (t, rest) => (c :: t, rest)

/-! ### Reading values and objects -/

/-- A value that is no object and no list. -/
inductive Value where
  | null
  | bool (b : Bool)
  | number (n : Nat)
  | string (t : Text)
deriving DecidableEq, Repr

/-- White space between tokens. -/
def isBlank (c : Char) : Bool := c == ' ' || c == '\t' || c == '\n' || c == '\r'

/-- The text behind a mark, white space in front of it aside. -/
def mark? (mark : Char) (t : Text) : Option Text :=
  match t.dropWhile isBlank with
  | c :: rest => if c = mark then some rest else none
  | [] => none

/-- The value that a word stands for. -/
def ofWord? (word : Text) : Option Value :=
  if word = "null".toList then some .null
  else if word = "true".toList then some (.bool true)
  else if word = "false".toList then some (.bool false)
  else if Numeral.isDigits word then some (.number (Nat.ofDigitChars 10 word 0))
  else none

/-- The value at the beginning of a text, and the text behind it. -/
def value? (t : Text) : Option (Value × Text) :=
  match t.dropWhile isBlank with
  | '"' :: rest => (stringFrom rest).map fun (t, rest) => (.string t, rest)
  | t => (ofWord? (t.takeWhile Char.isAlphanum)).map fun v => (v, t.dropWhile Char.isAlphanum)

/-- The value of the field with a name, which begins the text. -/
def field? (name t : Text) : Option (Value × Text) := do
  let (v, t) ← value? t
  if v = .string name then value? (← mark? ':' t) else none

/-- The values of the fields with some names, in this order, each behind a comma but the first. -/
def fieldsFrom (first : Char) : List Text → Text → Option (List Value × Text)
  | [], t => some ([], t)
  | name :: names, t => do
    let (v, t) ← field? name (← mark? first t)
    let (vs, t) ← fieldsFrom ',' names t
    return (v :: vs, t)

/-- The values of the fields of an object that has just the fields with some names, in this order. -/
def object? (names : List Text) (t : Text) : Option (List Value) := do
  let (vs, t) ← fieldsFrom '\x7b' names t
  let t ← mark? '\x7d' t
  if t.all isBlank then some vs else none

/-! ### What is read of what was written -/

/-- The text of a value. -/
def Value.text : Value → Text
  | null => "null".toList
  | bool b => Json.bool b
  | number n => Nat.toDigits 10 n
  | string t => Json.string t

variable {c : Char} {t rest space name : Text} {v : Value}

/-- A control character is one of two hexadecimal digits. -/
theorem ofCode?_of_lt (h : c.toNat < 32) :
    ofCode? '0' '0' (hexDigit (c.toNat / 16)) (hexDigit (c.toNat % 16)) = some c := by
  have hall : ∀ n < 32, ofCode? '0' '0' (hexDigit (n / 16)) (hexDigit (n % 16)) =
      some (Char.ofNat n) := by decide
  rw [hall _ h, Char.ofNat_toNat]

/-- **What is read of an escaped character is that character.** -/
theorem stringFrom_escape (c : Char) (rest : Text) :
    stringFrom (escape c ++ rest) = (stringFrom rest).map fun (t, rest) => (c :: t, rest) := by
  unfold escape
  split_ifs with hquote hbackslash hfeed hreturn htab hback hform hcontrol
  · subst hquote; rfl
  · subst hbackslash; rfl
  · subst hfeed; rfl
  · subst hreturn; rfl
  · subst htab; rfl
  · subst hback; rfl
  · subst hform; rfl
  · simp [stringFrom, ofCode?_of_lt hcontrol]
  · -- the character stands for itself
    rw [List.singleton_append, stringFrom, if_neg hcontrol]
    · exact hquote
    · exact fun _ _ _ _ _ h => absurd h hbackslash
    · exact fun _ _ h => absurd h hbackslash

theorem stringFrom_string (t rest : Text) :
    stringFrom (t.flatMap escape ++ '"' :: rest) = some (t, rest) := by
  induction t with
  | nil => rfl
  | cons c t ih => rw [List.flatMap_cons, List.append_assoc, stringFrom_escape, ih, Option.map_some]

theorem dropWhile_isBlank (hspace : ∀ c ∈ space, isBlank c) (ht : ∀ c ∈ t.head?, isBlank c = false) :
    (space ++ t).dropWhile isBlank = t := by
  rw [List.dropWhile_append_of_pos hspace, Text.dropWhile_eq_self ht]

theorem mark?_append (hspace : ∀ c ∈ space, isBlank c) (hc : isBlank c = false) :
    mark? c (space ++ c :: rest) = some rest := by
  rw [mark?, dropWhile_isBlank hspace (Text.head_of_cons hc)]
  exact if_pos rfl

/-- A word ends where no letter or digit follows. -/
theorem value?_word {word : Text} (hspace : ∀ c ∈ space, isBlank c) (hne : word ≠ [])
    (hword : ∀ c ∈ word, c.isAlphanum) (hrest : ∀ c ∈ rest.head?, c.isAlphanum = false)
    (hv : ofWord? word = some v) : value? (space ++ (word ++ rest)) = some (v, rest) := by
  obtain ⟨c, w, rfl⟩ := List.exists_cons_of_ne_nil hne
  have hc : c.isAlphanum := hword c (by simp)
  have hblank : isBlank c = false := by
    refine Bool.eq_false_iff.2 fun h => ?_
    simp only [isBlank, Bool.or_eq_true, beq_iff_eq] at h
    rcases h with ((rfl | rfl) | rfl) | rfl <;> exact absurd hc (by decide)
  have hquote : c ≠ '"' := by
    rintro rfl
    exact absurd hc (by decide)
  have hhead : ∀ d ∈ (c :: w ++ rest).head?, isBlank d = false := Text.head_of_cons hblank
  rw [value?, dropWhile_isBlank hspace hhead]
  split
  · rename_i heq
    exact absurd (List.cons_eq_cons.1 heq).1 hquote
  · rw [List.takeWhile_append_of_pos hword, List.dropWhile_append_of_pos hword,
      Text.dropWhile_eq_self hrest, Text.takeWhile_eq_nil hrest, List.append_nil, hv]
    rfl

theorem ofWord?_toDigits (n : Nat) : ofWord? (Nat.toDigits 10 n) = some (.number n) := by
  have hdigits := isDigits_toDigits n
  have hne : ∀ word : Text, (∃ c ∈ word, c.isDigit = false) → Nat.toDigits 10 n ≠ word := by
    rintro word ⟨c, hc, hdigit⟩ rfl
    rw [hdigits.2 c hc] at hdigit
    cases hdigit
  rw [ofWord?, if_neg (hne _ ⟨'n', by decide⟩), if_neg (hne _ ⟨'t', by decide⟩),
    if_neg (hne _ ⟨'f', by decide⟩), if_pos (isDigits_iff.2 hdigits), Nat.ofDigitChars_ten_toDigits]

/-- **What is read of the text of a value is that value.** -/
theorem value?_text (v : Value) (hspace : ∀ c ∈ space, isBlank c)
    (hrest : ∀ c ∈ rest.head?, c.isAlphanum = false) :
    value? (space ++ (v.text ++ rest)) = some (v, rest) := by
  cases v with
  | null => exact value?_word hspace (by decide) (by decide) hrest rfl
  | bool b =>
    cases b with
    | true => exact value?_word hspace (by decide) (by decide) hrest rfl
    | false => exact value?_word hspace (by decide) (by decide) hrest rfl
  | number n =>
    have hdigits := isDigits_toDigits n
    exact value?_word hspace hdigits.1 (fun c hc => by simp [Char.isAlphanum, hdigits.2 c hc]) hrest
      (ofWord?_toDigits n)
  | string t =>
    have hquoted : Value.text (.string t) ++ rest = '"' :: (t.flatMap escape ++ '"' :: rest) := by
      simp [Value.text, string]
    rw [hquoted, value?, dropWhile_isBlank hspace (Text.head_of_cons rfl)]
    show (stringFrom (t.flatMap escape ++ '"' :: rest)).map _ = _
    rw [stringFrom_string, Option.map_some]

theorem field?_text (hspace : ∀ c ∈ space, isBlank c)
    (hrest : ∀ c ∈ rest.head?, c.isAlphanum = false) :
    field? name (space ++ (string name ++ (": ".toList ++ (v.text ++ rest)))) = some (v, rest) := by
  have hname : value? (space ++ (string name ++ (": ".toList ++ (v.text ++ rest)))) =
      some (.string name, ": ".toList ++ (v.text ++ rest)) :=
    value?_text (.string name) hspace (Text.head_of_cons rfl)
  have hmark : mark? ':' (": ".toList ++ (v.text ++ rest)) = some ([' '] ++ (v.text ++ rest)) :=
    mark?_append (List.forall_mem_nil _) rfl
  have hv : value? ([' '] ++ (v.text ++ rest)) = some (v, rest) := value?_text v (by decide) hrest
  simp only [field?, hname, Option.bind_eq_bind, Option.bind_some, if_true, hmark, hv]

/-- Fields with a line to each, in front of which a mark stands. -/
def fieldLines (first : Char) : List (Text × Value) → Text
  | [] => []
  | (name, v) :: fields =>
    first :: "\n  ".toList ++ (string name ++ (": ".toList ++ (v.text ++ fieldLines ',' fields)))

theorem head_fieldLines {first : Char} (hfirst : first.isAlphanum = false)
    (hrest : ∀ c ∈ rest.head?, c.isAlphanum = false) (fields : List (Text × Value)) :
    ∀ c ∈ (fieldLines first fields ++ rest).head?, c.isAlphanum = false := by
  cases fields with
  | nil => exact hrest
  | cons field fields => exact Text.head_of_cons hfirst

theorem fieldsFrom_fieldLines (hrest : ∀ c ∈ rest.head?, c.isAlphanum = false) {first : Char}
    (hfirst : isBlank first = false) (fields : List (Text × Value)) :
    fieldsFrom first (fields.map Prod.fst) (fieldLines first fields ++ rest) =
      some (fields.map Prod.snd, rest) := by
  induction fields generalizing first with
  | nil => rfl
  | cons field fields ih =>
    obtain ⟨name, v⟩ := field
    have hmark : mark? first (fieldLines first ((name, v) :: fields) ++ rest) =
        some ("\n  ".toList ++ (string name ++ (": ".toList ++ (v.text ++
          (fieldLines ',' fields ++ rest))))) := by
      rw [fieldLines]
      simp only [List.append_assoc, List.cons_append]
      exact mark?_append (List.forall_mem_nil _) hfirst
    have hfield : field? name ("\n  ".toList ++ (string name ++ (": ".toList ++ (v.text ++
        (fieldLines ',' fields ++ rest))))) = some (v, fieldLines ',' fields ++ rest) :=
      field?_text (by decide) (head_fieldLines rfl hrest fields)
    simp only [List.map_cons, fieldsFrom, hmark, Option.bind_eq_bind, Option.bind_some, hfield,
      @ih ',' rfl, Option.pure_def]

theorem object_eq (field : Text × Value) (fields : List (Text × Value)) :
    object ((field :: fields).map fun (name, v) => (name, v.text)) =
      fieldLines '\x7b' (field :: fields) ++ "\n\x7d".toList := by
  have hlines : ∀ (field : Text × Value) (first : Char),
      [first, '\n'] ++ ",\n".toList.intercalate ((field :: fields).map fun (name, v) =>
        "  ".toList ++ string name ++ ": ".toList ++ v.text) = fieldLines first (field :: fields) := by
    induction fields with
    | nil =>
      intro (name, v) first
      simp [fieldLines]
    | cons next fields ih =>
      intro (name, v) first
      have hrest := ih next ','
      rw [List.map_cons] at hrest
      rw [List.map_cons, List.map_cons, List.intercalate_cons_cons, fieldLines, ← hrest]
      simp
  rw [← hlines, object, List.map_map]
  rfl

/-- **An object is read as it was written.** -/
theorem object?_object (field : Text × Value) (fields : List (Text × Value)) :
    object? ((field :: fields).map Prod.fst)
      (object ((field :: fields).map fun (name, v) => (name, v.text))) =
        some ((field :: fields).map Prod.snd) := by
  have hend : mark? '\x7d' "\n\x7d".toList = some [] := by decide
  have hfields : fieldsFrom '\x7b' ((field :: fields).map Prod.fst)
      (fieldLines '\x7b' (field :: fields) ++ "\n\x7d".toList) =
        some ((field :: fields).map Prod.snd, "\n\x7d".toList) :=
    fieldsFrom_fieldLines (Text.head_of_cons rfl) rfl _
  rw [object_eq, object?, hfields]
  simp only [Option.bind_eq_bind, Option.bind_some, hend, List.all_nil, if_true]

end Json

namespace Report

open Json

/-- The report that a text in JSON gives. -/
def ofJson? (t : Text) : Option Report :=
  match object? ["success".toList, "output".toList, "errorMessage".toList,
    "executionTimeMs".toList] t with
  | some [.bool success, .string output, .null, .number elapsed] => some ⟨success, output, none, elapsed⟩
  | some [.bool success, .string output, .string error, .number elapsed] =>
    some ⟨success, output, some error, elapsed⟩
  | _ => none

/-- **A report is read from its JSON as it was.** -/
theorem ofJson?_toJson (r : Report) : ofJson? r.toJson = some r := by
  obtain ⟨success, output, error, elapsed⟩ := r
  have hread : ∀ v : Value, v.text = optionalString error →
      object? ["success".toList, "output".toList, "errorMessage".toList, "executionTimeMs".toList]
        (toJson ⟨success, output, error, elapsed⟩) =
          some [.bool success, .string output, v, .number elapsed] := by
    intro v hv
    rw [toJson, ← hv]
    exact object?_object ("success".toList, .bool success) [("output".toList, .string output),
      ("errorMessage".toList, v), ("executionTimeMs".toList, .number elapsed)]
  cases error with
  | none => rw [ofJson?, hread .null rfl]
  | some e => rw [ofJson?, hread (.string e) rfl]

end Report

end DryRun
