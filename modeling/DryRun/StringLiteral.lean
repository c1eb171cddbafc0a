import DryRun.Comment

/-!
# String literals

A text that is one string literal and nothing else: up to two letters, an opening quote, a body, the
same quote again.  In the body a backslash takes the next character along, and the quote stands only
behind one.
-/

namespace DryRun

open Comment (backtick isQuote)

/-- The parts of a string literal. -/
structure StringLiteral where
  /-- The letters before the opening quote. -/
  marks : Text
  quote : Char
  /-- The text between the quotes, escapes as written. -/
  body : Text
deriving DecidableEq, Repr

namespace StringLiteral

/-- The text to come up to the quote that closes a body, and the text after it.  `escaped` says
whether a backslash takes the next character along. -/
def bodyFrom (quote : Char) (escaped : Bool) : Text → Option (Text × Text)
  | [] => none
  | c :: rest =>
    if !escaped && c == quote then some ([], rest)
    else
      (bodyFrom quote (!escaped && c == '\\') rest).map fun (body, after) => (c :: body, after)

/-- The parts of a text that is one string literal, with or without white space around it. -/
def ofText? (t : Text) : Option StringLiteral :=
  let marks := t.trim.takeWhile fun c => !isQuote c
  match t.trim.dropWhile fun c => !isQuote c with
  | [] => none
  | quote :: rest =>
    if marks.length ≤ 2 && marks.all Char.isAlpha then
      match bodyFrom quote false rest with
      | some (body, []) => some ⟨marks, quote, body⟩
      | _ => none
    else none

/-- A literal without letters, in `"` or `'`: its body stands for itself. -/
def isPlain (l : StringLiteral) : Bool := l.marks.isEmpty && l.quote != backtick

/-- The body of a literal, if it stands for itself. -/
def plainBody? (l : StringLiteral) : Option Text := if l.isPlain then some l.body else none

theorem plainBody?_eq_some_iff {l : StringLiteral} {body : Text} :
    l.plainBody? = some body ↔ l.isPlain ∧ l.body = body := by
  simp [plainBody?]

/-- Whether a letter, large or small, is among those before the opening quote. -/
def hasMark (l : StringLiteral) (letter : Char) : Bool :=
  l.marks.any fun c => c.toLower == letter.toLower

/-! ### Escapes -/

/-- What a backslash and a character stand for.  A pair that means nothing stays as written. -/
def escapeText (c : Char) : Text :=
  if c = 'n' then ['\n']
  else if c = 't' then ['\t']
  else if c = '\\' ∨ isQuote c ∨ c = '$' then [c]
  else ['\\', c]

/-- A body with its escapes resolved. -/
def resolveEscapes : Text → Text
  | [] => []
  | '\\' :: c :: rest => escapeText c ++ resolveEscapes rest
  | c :: rest => c :: resolveEscapes rest

end StringLiteral

end DryRun
