import DryRun.Pattern.Basic

/-!
# The preferred way to match

`first?` looks for the first outcome of a pattern that a continuation accepts.  It tries one way
after another and lists none of them; `first?_eq_findSome?` says that it finds what a search through
the list of all outcomes would find.
-/

namespace DryRun

namespace Pattern

variable {α : Type}

/-- The answer of `k` at the farthest place that it accepts, among those reached by reading
characters that satisfy `p`. -/
def farthest? (p : Char → Bool) (k : Cursor → Option α) (seen : Text) (n : Nat)
    (h : n = seen.length) : Text → Option α
  | [] => k ⟨seen, [], n, h⟩
  | x :: rest =>
    if p x then
      farthest? p k (x :: seen) (n + 1) (Cursor.index_succ h x) rest <|> k ⟨seen, x :: rest, n, h⟩
    else k ⟨seen, x :: rest, n, h⟩

/-- The answer of `k` at the nearest place that it accepts, among those reached by reading
characters that satisfy `p`. -/
def nearest? (p : Char → Bool) (k : Cursor → Option α) (seen : Text) (n : Nat)
    (h : n = seen.length) : Text → Option α
  | [] => k ⟨seen, [], n, h⟩
  | x :: rest =>
    k ⟨seen, x :: rest, n, h⟩ <|>
      if p x then nearest? p k (x :: seen) (n + 1) (Cursor.index_succ h x) rest else none

/-- The answer of `k` at the first outcome of a pattern that it accepts. -/
def first? : Pattern → Progress → (Progress → Option α) → Option α
  | empty, s, k => k s
  | one p, s, k => (s.cursor.advance? p).bind fun c => k { s with cursor := c }
  | many p, s, k =>
    farthest? p (fun c => k { s with cursor := c }) s.cursor.seen s.cursor.index s.cursor.index_eq
      s.cursor.rest
  | fewest p, s, k =>
    nearest? p (fun c => k { s with cursor := c }) s.cursor.seen s.cursor.index s.cursor.index_eq
      s.cursor.rest
  | seq p q, s, k => first? p s fun t => first? q t k
  | alt p q, s, k => first? p s k <|> first? q s k
  | group n p, s, k =>
    first? p s fun t => k { t with groups := (n, ⟨s.cursor, t.cursor⟩) :: t.groups }
  | wordBoundary, s, k => if s.cursor.atWordBoundary then k s else none
  | lineStart, s, k => if s.cursor.atLineStart then k s else none

/-! ### Searching the list of outcomes -/

theorem farthest?_eq_findSome? (p : Char → Bool) (k : Cursor → Option α) :
    ∀ (seen : Text) (n : Nat) (h : n = seen.length) (rest : Text),
      farthest? p k seen n h rest = (Cursor.stopsFrom p seen n h rest).reverse.findSome? k
  | seen, n, h, [] => by simp [farthest?, Cursor.stopsFrom]
  | seen, n, h, x :: rest => by
    by_cases hp : p x
    · simp only [farthest?, Cursor.stopsFrom, hp, if_true, List.reverse_cons,
        List.findSome?_append, farthest?_eq_findSome? p k (x :: seen)]
      cases ((Cursor.stopsFrom p (x :: seen) (n + 1) _ rest).reverse.findSome? k) <;> simp
    · simp [farthest?, Cursor.stopsFrom, hp]

theorem nearest?_eq_findSome? (p : Char → Bool) (k : Cursor → Option α) :
    ∀ (seen : Text) (n : Nat) (h : n = seen.length) (rest : Text),
      nearest? p k seen n h rest = (Cursor.stopsFrom p seen n h rest).findSome? k
  | seen, n, h, [] => by simp [nearest?, Cursor.stopsFrom]
  | seen, n, h, x :: rest => by
    simp only [nearest?, Cursor.stopsFrom, List.findSome?_cons,
      nearest?_eq_findSome? p k (x :: seen)]
    cases k ⟨seen, x :: rest, n, h⟩ with
    | some a => rfl
    | none => by_cases hp : p x <;> simp [hp]

theorem findSome?_flatMap {β γ : Type} (f : β → List γ) (k : γ → Option α) (l : List β) :
    (l.flatMap f).findSome? k = l.findSome? fun x => (f x).findSome? k := by
  induction l with
  | nil => rfl
  | cons x l ih =>
    simp only [List.flatMap_cons, List.findSome?_append, List.findSome?_cons, ih]
    cases (f x).findSome? k <;> rfl

/-- Trying one way after another finds what a search through all outcomes would find. -/
theorem first?_eq_findSome? (p : Pattern) (s : Progress) (k : Progress → Option α) :
    first? p s k = (outcomes p s).findSome? k := by
  induction p generalizing s k with
  | empty => simp [first?, outcomes]
  | one p =>
    cases h : s.cursor.advance? p <;> simp [first?, outcomes, h]
  | many p =>
    simp only [first?, outcomes, farthest?_eq_findSome?, Cursor.stops, List.findSome?_map]
    rfl
  | fewest p =>
    simp only [first?, outcomes, nearest?_eq_findSome?, Cursor.stops, List.findSome?_map]
    rfl
  | seq p q ihp ihq => simp only [first?, outcomes, findSome?_flatMap, ihp, ihq]
  | alt p q ihp ihq =>
    simp only [first?, outcomes, List.findSome?_append, ihp, ihq]
    cases (outcomes p s).findSome? k <;> rfl
  | group n p ih =>
    simp only [first?, outcomes, List.findSome?_map, ih]
    rfl
  | wordBoundary =>
    simp only [first?, outcomes]
    split <;> simp
  | lineStart =>
    simp only [first?, outcomes]
    split <;> simp

end Pattern

end DryRun
