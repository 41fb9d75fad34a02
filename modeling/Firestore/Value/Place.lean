import Firestore.Value

/-!
# Fields of fields

A field path leads through nested maps.  Reading along a path finds nothing
where a map or a field is missing; writing along a path makes the maps that are
missing, and puts a map in the place of anything else that stands on the way.  A
value has places inside it, too (`Value.follow?`).
-/

namespace Firestore

/-- What stands inside a value at the end of some keys; no keys lead to the value itself. -/
def Value.follow? : Value → List String → Option Value
  | v, [] => some v
  | .map fields, key :: rest => (Fields.get? fields key).bind fun inside => inside.follow? rest
  | _, _ :: _ => none

namespace Fields

/-- What stands at the end of some keys, one inside the other. -/
def getAt : Fields Value → List String → Option Value
  | _, [] => none
  | fields, [key] => fields.get? key
  | fields, key :: next :: rest =>
      match fields.get? key with
      | some (.map inner) => getAt inner (next :: rest)
      | _ => none

/-- The fields of the map that a name holds, none if it holds no map. -/
def inner (fields : Fields Value) (key : String) : Fields Value :=
  match fields.get? key with
  | some (.map inner) => inner
  | _ => []

/-- Puts a value at the end of some keys, one inside the other. -/
def setAt : Fields Value → List String → Value → Fields Value
  | fields, [], _ => fields
  | fields, [key], v => fields.insert key v
  | fields, key :: next :: rest, v =>
      fields.insert key (.map (setAt (fields.inner key) (next :: rest) v))

/-- The value that a field path leads to. -/
def getPath (fields : Fields Value) (path : FieldPath) : Option Value :=
  fields.getAt path.segments

/-- The fields with a value put where a field path leads. -/
def setPath (fields : Fields Value) (path : FieldPath) (v : Value) : Fields Value :=
  fields.setAt path.segments v

end Fields

end Firestore
