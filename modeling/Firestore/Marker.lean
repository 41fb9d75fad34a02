import Firestore.Value

/-!
# Reserved names

Data of a general kind has no moments, points, bytes, references or transforms.
There, such a leaf is its plain content under a reserved name.  One more name
marks a map whose own first name is reserved, so that it is not taken for a leaf.
-/

namespace Firestore

/-- The kinds of leaves that have a reserved name. -/
inductive Marker where
  | timestamp
  | geoPoint
  | bytes
  | reference
  | transform
  deriving DecidableEq, Repr

namespace Marker

/-- The reserved name of a leaf. -/
def name : Marker → String
  | .timestamp => "$__firestore_timestamp"
  | .geoPoint => "$__firestore_geo_point"
  | .bytes => "$__firestore_bytes"
  | .reference => "$__firestore_reference"
  | .transform => "$__firestore_field_value"

/-- The reserved name of a map that is no leaf. -/
def literalMap : String := "$__firestore_map"

/-- The leaf that a name is reserved for. -/
def ofName? (s : String) : Option Marker :=
  if s = timestamp.name then some .timestamp
  else if s = geoPoint.name then some .geoPoint
  else if s = bytes.name then some .bytes
  else if s = reference.name then some .reference
  else if s = transform.name then some .transform
  else none

/-- Whether a name is reserved. -/
def isReserved (s : String) : Bool :=
  (ofName? s).isSome || s == literalMap

/-- The kind of the values that stand under a reserved name. -/
def kind : Marker → String
  | .timestamp => "timestamp"
  | .geoPoint => "geo point"
  | .bytes => "bytes"
  | .reference => "reference"
  | .transform => "field transform"

/-- What a reader says it expected. -/
def description : Marker → String
  | .timestamp => "a timestamp"
  | .geoPoint => "a geo point"
  | .bytes => "bytes"
  | .reference => "a document reference"
  | .transform => "a field transform"

theorem ofName?_name (m : Marker) : ofName? m.name = some m := by
  cases m <;> decide

/-- A name is reserved for no other leaf than the one that it names. -/
theorem name_of_ofName? {s : String} {m : Marker} (h : ofName? s = some m) : m.name = s := by
  grind [ofName?]

/-- A name that is not reserved is neither that of a leaf nor the one for maps. -/
theorem isReserved_eq_false {s : String} :
    isReserved s = false ↔ ofName? s = none ∧ s ≠ literalMap := by
  simp [isReserved]

end Marker

end Firestore
