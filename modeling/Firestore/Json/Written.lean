import Firestore.Json.Literal
import Firestore.Json.Numeral

/-!
# JSON as it is written

The tree of a JSON text before its strings, its numbers and its depth are looked
at.  Every text of the grammar has one.  It stands for a value if each string is
a text, each number is one, and arrays and objects are nested no deeper than a
reader may follow.
-/

namespace Firestore.Json

/-- A JSON value as it is written. -/
inductive Written where
  | null
  | bool (b : Bool)
  | number (n : Numeral)
  | string (l : Literal)
  | array (elements : List Written)
  | object (members : List (Literal × Written))

/-- How deep arrays and objects may be nested. -/
def maxDepth : Nat := 127

mutual

/-- The value that a tree stands for; arrays and objects may be nested `depth` deep. -/
def ofWritten? (depth : Nat) : Written → Option Json
  | .null => some .null
  | .bool b => some (.bool b)
  | .number n => Json.number <$> n.number?
  | .string l => Json.string <$> l.text?
  | .array elements =>
      if depth = 0 then none else Json.array <$> ofElements? (depth - 1) elements
  | .object members =>
      if depth = 0 then none else Json.object <$> ofMembers? (depth - 1) members

/-- The values that elements stand for. -/
def ofElements? (depth : Nat) : List Written → Option (List Json)
  | [] => some []
  | w :: rest => do
      let j ← ofWritten? depth w
      return j :: (← ofElements? depth rest)

/-- The members that written members stand for. -/
def ofMembers? (depth : Nat) : List (Literal × Written) → Option (List (String × Json))
  | [] => some []
  | (l, w) :: rest => do
      let name ← l.text?
      let j ← ofWritten? depth w
      return (name, j) :: (← ofMembers? depth rest)

end

end Firestore.Json
