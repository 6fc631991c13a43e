/-!
# Component data

The implementation of a component is data that the page hands to its host
unchanged: null, truth values, numbers, texts, lists and records.  Integers and
floats are different values, also where they denote the same number.  A float is
kept as the 64 bits of its binary form.

A record lists its fields in the order in which they are shown.  Those of component data
have no order of their own: `Data.ofFields` puts them in the order of their names, each
name once, where a later field replaces an earlier one of the same name.
-/

namespace Hydration

/-- A value that is passed through the page without being looked at. -/
inductive Data where
  | null
  | bool (b : Bool)
  | int (n : Int)
  | float (bits : UInt64)
  | string (s : String)
  | list (items : List Data)
  | record (fields : List (String × Data))
deriving Repr, Inhabited

namespace Data

mutual

/-- Equality of data; floats are compared by their bits. -/
def beq : Data → Data → Bool
  | null, null => true
  | bool a, bool b => a == b
  | int a, int b => a == b
  | float a, float b => a == b
  | string a, string b => a == b
  | list xs, list ys => beqItems xs ys
  | record xs, record ys => beqFields xs ys
  | _, _ => false

/-- Equality of item lists. -/
def beqItems : List Data → List Data → Bool
  | [], [] => true
  | x :: xs, y :: ys => x.beq y && beqItems xs ys
  | _, _ => false

/-- Equality of field lists. -/
def beqFields : List (String × Data) → List (String × Data) → Bool
  | [], [] => true
  | (k, x) :: xs, (l, y) :: ys => k == l && x.beq y && beqFields xs ys
  | _, _ => false

end

instance : BEq Data := ⟨beq⟩

end Data

/-- Puts `(key, value)` into a list sorted by key, in place of an entry with the
same key. -/
def insertSorted {α : Type u} (key : String) (value : α) : List (String × α) → List (String × α)
  | [] => [(key, value)]
  | (k, v) :: rest =>
    if key < k then (key, value) :: (k, v) :: rest
    else if key = k then (key, value) :: rest
    else (k, v) :: insertSorted key value rest

/-- The entries sorted by key, the last one of each key. -/
def sortedEntries {α : Type u} (entries : List (String × α)) : List (String × α) :=
  entries.foldl (fun sorted (k, v) => insertSorted k v sorted) []

namespace Data

/-- The record with the given fields. -/
def ofFields (fields : List (String × Data)) : Data :=
  record (sortedEntries fields)

/-- The field `name` of a record. -/
def field? (name : String) : Data → Option Data
  | record fields => fields.lookup name
  | _ => none

end Data

end Hydration
