import Firestore.Fields
import Firestore.GeoPoint
import Firestore.Path.Field
import Firestore.Time.Timestamp
import Firestore.Transform

/-!
# Values

What a field of a document can hold: eleven kinds of stored data and, in data
that is still to be written, a transform.  Maps keep their fields in the order of
their names; `Value.Ordered` says so of all maps inside a value, and the
functions of this library that build maps keep it.
-/

namespace Firestore

/-- What a field holds. -/
inductive Value where
  | null
  | boolean (b : Bool)
  | integer (n : Int64)
  | double (x : Double)
  | timestamp (t : Timestamp)
  | string (s : String)
  | bytes (bs : List UInt8)
  | reference (name : String)
  | geoPoint (p : GeoPoint)
  | array (elements : List Value)
  | map (fields : List (String × Value))
  | transform (t : Transform Value)

namespace Value

/-- The name of a value's kind in diagnostics. -/
def kind : Value → String
  | .null => "null"
  | .boolean _ => "boolean"
  | .integer _ => "integer"
  | .double _ => "double"
  | .timestamp _ => "timestamp"
  | .string _ => "string"
  | .bytes _ => "bytes"
  | .reference _ => "reference"
  | .geoPoint _ => "geo point"
  | .array _ => "array"
  | .map _ => "map"
  | .transform _ => "field transform"

/-! ## Kinds -/

def isNull : Value → Bool
  | .null => true
  | _ => false

def isNaN : Value → Bool
  | .double x => x.isNaN
  | _ => false

def isTransform : Value → Bool
  | .transform _ => true
  | _ => false

def string? : Value → Option String
  | .string s => some s
  | _ => none

def integer? : Value → Option Int64
  | .integer n => some n
  | _ => none

/-- A number as a double; integers are rounded. -/
def double? : Value → Option Double
  | .double x => some x
  | .integer n => some (.ofInt n.toInt)
  | _ => none

def elements? : Value → Option (List Value)
  | .array elements => some elements
  | _ => none

def fields? : Value → Option (Fields Value)
  | .map fields => some fields
  | _ => none

/-! ## Whole values -/

mutual

/-- Whether a transform stands in a value, at any depth of arrays and maps. -/
def hasTransform : Value → Bool
  | .transform _ => true
  | .array elements => anyTransform elements
  | .map fields => anyFieldTransform fields
  | _ => false

/-- Whether a transform stands in one of some elements. -/
def anyTransform : List Value → Bool
  | [] => false
  | v :: rest => v.hasTransform || anyTransform rest

/-- Whether a transform stands in one of some fields. -/
def anyFieldTransform : List (String × Value) → Bool
  | [] => false
  | (_, v) :: rest => v.hasTransform || anyFieldTransform rest

end

mutual

/-- The value with all its moments in normal form, those in operands included. -/
def normalize : Value → Value
  | .timestamp t => .timestamp t.normalize
  | .array elements => .array (normalizeAll elements)
  | .map fields => .map (normalizeFields fields)
  | .transform .delete => .transform .delete
  | .transform .serverTimestamp => .transform .serverTimestamp
  | .transform (.increment operand) => .transform (.increment operand.normalize)
  | .transform (.arrayUnion elements) => .transform (.arrayUnion (normalizeAll elements))
  | .transform (.arrayRemove elements) => .transform (.arrayRemove (normalizeAll elements))
  | v => v

/-- The normal forms of some elements. -/
def normalizeAll : List Value → List Value
  | [] => []
  | v :: rest => v.normalize :: normalizeAll rest

/-- The normal forms of some fields. -/
def normalizeFields : List (String × Value) → List (String × Value)
  | [] => []
  | (k, v) :: rest => (k, v.normalize) :: normalizeFields rest

end

end Value

end Firestore
