import DryRun.Pattern.First

/-!
# Searching a text

A text is cut from left to right into `Piece`s: the matches of a pattern, which do not overlap, and
the single characters between them.  Listing the matches and replacing them both read off that
cut.
-/

namespace DryRun

/-- A stretch of text that a pattern matched, with its groups. -/
structure Match where
  span : Span
  groups : List (Nat × Span)

namespace Match

/-- The matched text. -/
def text (m : Match) : Text := m.span.text

/-- The text before the match, nearest character first. -/
def seen (m : Match) : Text := m.span.start.seen

/-- The text after the match. -/
def rest (m : Match) : Text := m.span.stop.rest

/-- The stretch of a group, if the group took part in the match. -/
def groupSpan? (m : Match) (n : Nat) : Option Span := m.groups.lookup n

/-- The text of a group, if the group took part in the match. -/
def group? (m : Match) (n : Nat) : Option Text := (m.groupSpan? n).map Span.text

end Match

/-- A part of a searched text. -/
inductive Piece where
  /-- A character outside all matches. -/
  | plain (c : Char)
  | found (m : Match)

namespace Piece

/-- The match of a piece that is one. -/
def match? : Piece → Option Match
  | plain _ => none
  | found m => some m

/-- The text of a piece once every match is replaced by what `f` gives for it. -/
def replace (f : Match → Text) : Piece → Text
  | plain c => [c]
  | found m => f m

end Piece

namespace Pattern

/-- The preferred match from a place. -/
def matchAt? (p : Pattern) (c : Cursor) : Option Match :=
  p.first? ⟨c, []⟩ fun s => some ⟨⟨c, s.cursor⟩, s.groups⟩

theorem matchAt?_eq_head? (p : Pattern) (c : Cursor) :
    p.matchAt? c = (p.outcomes ⟨c, []⟩).head?.map fun s => ⟨⟨c, s.cursor⟩, s.groups⟩ := by
  rw [matchAt?, first?_eq_findSome?]
  cases p.outcomes ⟨c, []⟩ <;> rfl

/-- The pieces of the text that comes after `seen`.  The first `skip` characters of it belong to the
last match. -/
def piecesFrom (p : Pattern) (skip : Nat) (seen : Text) (n : Nat) (h : n = seen.length) :
    Text → List Piece
  | [] => []
  | x :: rest =>
    match skip with
    | skip + 1 => piecesFrom p skip (x :: seen) (n + 1) (Cursor.index_succ h x) rest
    | 0 =>
      match p.matchAt? ⟨seen, x :: rest, n, h⟩ with
      | none => .plain x :: piecesFrom p 0 (x :: seen) (n + 1) (Cursor.index_succ h x) rest
      | some m =>
        .found m ::
          piecesFrom p (m.span.length - 1) (x :: seen) (n + 1) (Cursor.index_succ h x) rest

/-- The pieces of a text, from left to right. -/
def pieces (p : Pattern) (t : Text) : List Piece := p.piecesFrom 0 [] 0 rfl t

/-- The matches of a pattern in a text, from left to right. -/
def findAll (p : Pattern) (t : Text) : List Match := (p.pieces t).filterMap Piece.match?

/-- The text with every match replaced by what `f` gives for it.  What `f` gives is not searched
again. -/
def replaceAll (p : Pattern) (f : Match → Text) (t : Text) : Text :=
  (p.pieces t).flatMap (Piece.replace f)

end Pattern

end DryRun
