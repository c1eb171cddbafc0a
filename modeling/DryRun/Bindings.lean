import Std.Data.TreeMap
import DryRun.Numeral

/-!
# Bindings

The names that a snippet gives a value, each with the text of its value.  A name has at most one
value, and the names are kept in the order of their characters, which is also the order of their
bytes in UTF-8.
-/

namespace DryRun

/-- A finite map from names to the text of their values. -/
structure Bindings where
  entries : Std.TreeMap Text Text

namespace Bindings

/-- No name is bound. -/
def empty : Bindings := ⟨∅⟩

instance : EmptyCollection Bindings := ⟨empty⟩

/-- The value of a name. -/
def get? (b : Bindings) (name : Text) : Option Text := b.entries[name]?

/-- The bindings with `name` bound to `value`, whatever it was bound to before. -/
def insert (b : Bindings) (name value : Text) : Bindings := ⟨b.entries.insert name value⟩

/-- Whether a name is bound. -/
def contains (b : Bindings) (name : Text) : Bool := b.entries.contains name

/-- The bindings with `name` bound to `value` if it was not bound before. -/
def insertIfNew (b : Bindings) (name value : Text) : Bindings :=
  if b.contains name then b else b.insert name value

/-- The value of a name as a number, if it is a numeral. -/
def number? (b : Bindings) (name : Text) : Option Binary64 := (b.get? name).bind Text.number?

/-- The bindings in the order of their names. -/
def toList (b : Bindings) : List (Text × Text) := b.entries.toList

/-- How many names are bound. -/
def size (b : Bindings) : Nat := b.entries.size

/-- Whether no name is bound. -/
def isEmpty (b : Bindings) : Bool := b.entries.isEmpty

/-- The bindings of a list of names and values, of which a later one replaces an earlier one of the
same name. -/
def ofList (l : List (Text × Text)) : Bindings :=
  l.foldl (fun b (name, value) => b.insert name value) ∅

/-! ### Looking up -/

@[simp] theorem get?_empty (name : Text) : (∅ : Bindings).get? name = none := by
  change (∅ : Std.TreeMap Text Text)[name]? = none
  simp

theorem get?_insert (b : Bindings) (name value other : Text) :
    (b.insert name value).get? other = if name = other then some value else b.get? other := by
  simp [get?, insert, Std.TreeMap.getElem?_insert]

@[simp] theorem get?_insert_self (b : Bindings) (name value : Text) :
    (b.insert name value).get? name = some value := by
  simp [get?_insert]

theorem contains_eq_isSome_get? (b : Bindings) (name : Text) :
    b.contains name = (b.get? name).isSome := by
  simp [contains, get?]

theorem get?_insertIfNew (b : Bindings) (name value other : Text) :
    (b.insertIfNew name value).get? other =
      if name = other ∧ b.get? name = none then some value else b.get? other := by
  unfold insertIfNew
  split <;> rename_i h <;> rw [contains_eq_isSome_get?] at h
  · rw [if_neg]
    rintro ⟨-, hn⟩
    simp [hn] at h
  · simp_all [get?_insert]

end Bindings

end DryRun
