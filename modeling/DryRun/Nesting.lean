import DryRun.Comment

/-!
# Nesting

Finding the end of an argument list, and splitting one at its commas, without being misled by
brackets and commas inside string literals and inner brackets.  Quotes of one kind hide the other
kinds, and a backslash in a literal takes the next character along.  The kinds of brackets are not
told apart, and a closing bracket where none is open is passed over.
-/

namespace DryRun

/-- Where a scan stands in relation to literals. -/
inductive Quoting where
  /-- Outside all literals. -/
  | outside
  /-- In a literal in this kind of quote. -/
  | inside (quote : Char)
  /-- In a literal, after a backslash. -/
  | escaped (quote : Char)
deriving DecidableEq, Repr

namespace Quoting

/-- Where a scan stands after a character. -/
def step : Quoting → Char → Quoting
  | outside, c => if Comment.isQuote c then inside c else outside
  | inside q, c => if c = '\\' then escaped q else if c = q then outside else inside q
  | escaped q, _ => inside q

end Quoting

/-- Where a scan stands: in relation to literals, and how many brackets are open. -/
structure Nesting where
  quoting : Quoting
  depth : Nat
deriving DecidableEq, Repr

namespace Nesting

/-- Outside all literals and brackets. -/
def top : Nesting := ⟨.outside, 0⟩

/-- Whether a character opens a bracket; with `angle` also `<` does. -/
def isOpening (angle : Bool) (c : Char) : Bool :=
  c == '(' || c == '[' || c == '{' || (angle && c == '<')

/-- Whether a character closes a bracket; with `angle` also `>` does. -/
def isClosing (angle : Bool) (c : Char) : Bool :=
  c == ')' || c == ']' || c == '}' || (angle && c == '>')

/-- Where a scan stands after a character. -/
def step (angle : Bool) (n : Nesting) (c : Char) : Nesting where
  quoting := n.quoting.step c
  depth :=
    if n.quoting ≠ .outside then n.depth
    else if isOpening angle c then n.depth + 1
    else if isClosing angle c then n.depth - 1
    else n.depth

/-! ### The end of an argument list -/

/-- The text to come up to the parenthesis that closes what stands open outside, and the text after
it. -/
def closeFrom (n : Nesting) : Text → Option (Text × Text)
  | [] => none
  | c :: rest =>
    if n = top ∧ c = ')' then some ([], rest)
    else (closeFrom (n.step false c) rest).map fun (args, after) => (c :: args, after)

/-- The argument list that begins a text, up to its closing parenthesis, and the text after that. -/
def arguments? (t : Text) : Option (Text × Text) := closeFrom top t

/-- The argument list that begins a number of bytes into a text, and the number of bytes up to and
with its closing parenthesis. -/
def argumentsAt? (t : Text) (start : Nat) : Option (Text × Nat) := do
  let (args, _) ← (Text.dropBytes? start t).bind arguments?
  return (args, start + args.byteLength + 1)

theorem append_of_closeFrom {t args after : Text} :
    ∀ {n : Nesting}, closeFrom n t = some (args, after) → t = args ++ ')' :: after := by
  induction t generalizing args with
  | nil => intro n h; simp [closeFrom] at h
  | cons c rest ih =>
    intro n h
    unfold closeFrom at h
    split at h
    · rename_i hc
      simp only [Option.some.injEq, Prod.mk.injEq] at h
      obtain ⟨rfl, rfl⟩ := h
      simp [hc.2]
    · simp only [Option.map_eq_some_iff, Prod.exists, Prod.mk.injEq] at h
      obtain ⟨args, after, h, rfl, rfl⟩ := h
      simp [ih h]

/-! ### Splitting at commas -/

/-- The pieces of the text to come between the commas that stand outside literals and brackets. -/
def piecesFrom (angle : Bool) (n : Nesting) : Text → List Text
  | [] => [[]]
  | c :: rest =>
    if n = top ∧ c = ',' then [] :: piecesFrom angle top rest
    else (piecesFrom angle (n.step angle c) rest).modifyHead (c :: ·)

/-- The trimmed pieces of a text between the commas that stand outside literals and brackets; with
`angle`, also `<` and `>` are brackets.  A blank text has no pieces. -/
def split (angle : Bool) (t : Text) : List Text :=
  if t.isBlank then [] else (piecesFrom angle top t).map Text.trim

theorem piecesFrom_ne_nil (angle : Bool) (n : Nesting) (t : Text) : piecesFrom angle n t ≠ [] := by
  induction t generalizing n with
  | nil => simp [piecesFrom]
  | cons c rest ih =>
    unfold piecesFrom
    split
    · simp
    · simpa [List.modifyHead_eq_nil_iff] using ih _

/-- The pieces and the commas between them are the whole text. -/
theorem intercalate_piecesFrom (angle : Bool) (n : Nesting) (t : Text) :
    List.intercalate [','] (piecesFrom angle n t) = t := by
  induction t generalizing n with
  | nil => rfl
  | cons c rest ih =>
    unfold piecesFrom
    split
    · rename_i hc
      obtain ⟨piece, more, hp⟩ := List.exists_cons_of_ne_nil (piecesFrom_ne_nil angle top rest)
      have := ih top
      rw [hp] at this ⊢
      simpa [List.intercalate, hc.2] using this
    · obtain ⟨piece, more, hp⟩ :=
        List.exists_cons_of_ne_nil (piecesFrom_ne_nil angle (n.step angle c) rest)
      have := ih (n.step angle c)
      rw [hp] at this ⊢
      cases more <;> simp_all [List.intercalate]

end Nesting

end DryRun
