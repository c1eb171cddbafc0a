import DryRun.Language

/-!
# Comments

A scan over the characters of a snippet tells code, string literals and comments apart.  It keeps
code and literals, and of a comment its line feeds, so that every statement stays on its line.  In a
literal a backslash takes the next character along; a line feed ends a literal in `"` or `'`, but
not one in backticks.
-/

namespace DryRun

/-- How comments are written. -/
inductive CommentStyle where
  /-- From `#` to the end of the line. -/
  | hash
  /-- From `//` to the end of the line, or between `/*` and `*/`. -/
  | slash
deriving DecidableEq, Repr

/-- How comments are written in a language. -/
def Language.commentStyle : Language → CommentStyle
  | .python => .hash
  | _ => .slash

namespace Comment

/-- What the scan is in the middle of. -/
inductive Mode where
  /-- Code. -/
  | code
  /-- Code, after a `/` that may begin a comment. -/
  | slash
  /-- A literal in this kind of quote. -/
  | literal (quote : Char)
  /-- A literal, after a backslash. -/
  | escape (quote : Char)
  /-- A comment that the line ends. -/
  | line
  /-- A comment between `/*` and `*/`; `star` says whether its last character was a `*`. -/
  | block (star : Bool)
deriving DecidableEq, Repr

/-- The quote of literals that may run over several lines. -/
def backtick : Char := '\x60'

/-- The characters that begin and end a literal. -/
def isQuote (c : Char) : Bool := c == '"' || c == '\'' || c == backtick

/-- What the scan is in after a character of code, and what it keeps of it. -/
def stepCode (style : CommentStyle) (c : Char) : Mode × Text :=
  if isQuote c then (.literal c, [c])
  else
    match style with
    | .hash => if c = '#' then (.line, []) else (.code, [c])
    | .slash => if c = '/' then (.slash, []) else (.code, [c])

/-- What the scan is in after a character, and what it keeps.  A `/` is kept once the next character
shows that it begins no comment. -/
def step (style : CommentStyle) : Mode → Char → Mode × Text
  | .code, c => stepCode style c
  | .slash, c =>
    if c = '/' then (.line, [])
    else if c = '*' then (.block false, [])
    else
      let (mode, kept) := stepCode style c
      (mode, '/' :: kept)
  | .literal q, c =>
    if c = '\\' then (.escape q, [c])
    else if c = q ∨ c = '\n' ∧ q ≠ backtick then (.code, [c])
    else (.literal q, [c])
  | .escape q, c => (.literal q, [c])
  | .line, c => if c = '\n' then (.code, [c]) else (.line, [])
  | .block star, c =>
    if c = '\n' then (.block false, [c])
    else if star ∧ c = '/' then (.code, [])
    else (.block (c == '*'), [])

/-- What is still to be kept where the text ends. -/
def atEnd : Mode → Text
  | .slash => ['/']
  | _ => []

/-- What the scan keeps of the text to come. -/
def keptFrom (style : CommentStyle) (mode : Mode) : Text → Text
  | [] => atEnd mode
  | c :: rest => (step style mode c).2 ++ keptFrom style (step style mode c).1 rest

/-- What the scan is in after a text. -/
def modeAfter (style : CommentStyle) (t : Text) : Mode :=
  t.foldl (fun mode c => (step style mode c).1) .code

end Comment

/-- A snippet without its comments, but with all their line feeds. -/
def withoutComments (language : Language) (t : Text) : Text :=
  Comment.keptFrom language.commentStyle .code t

end DryRun
