import Firestore.Json
import Firestore.Marker

/-!
# Native data

The data of a program as it shows itself when it is written: scalars, options,
sequences, maps, variants with their payloads, and named wrappers around other
data.  Leaves that general data does not have stand in a wrapper with a reserved
name; `Native.ofValue` is the form of a whole value.
-/

namespace Firestore

/-- Data that shows itself to a writer. -/
inductive Native where
  /-- Nothing: an absent option, the unit. -/
  | null
  | bool (b : Bool)
  /-- An integer of any width. -/
  | int (n : Int)
  | double (x : Double)
  /-- A text, a character, or the name of a variant without payload. -/
  | text (s : String)
  | bytes (bs : List UInt8)
  /-- A present option. -/
  | present (inner : Native)
  /-- A wrapper; the reserved names make leaves. -/
  | wrapper (name : String) (inner : Native)
  /-- A variant with its payload. -/
  | variant (name : String) (payload : Native)
  | seq (items : List Native)
  /-- A map or a record, in the order in which it is written. -/
  | map (entries : List (Native × Native))
  /-- A map that offers a value before any key. -/
  | keyless
  /-- Data that refuses to be written. -/
  | refusal (message : String)

namespace Native

/-- A record: a map whose keys are field names. -/
def record (fields : List (String × Native)) : Native :=
  .map (fields.map fun field => (.text field.1, field.2))

def ofTimestamp (t : Timestamp) : Native :=
  .wrapper Marker.timestamp.name (.seq [.int t.seconds.toInt, .int t.nanos.toInt])

def ofGeoPoint (p : GeoPoint) : Native :=
  .wrapper Marker.geoPoint.name (.seq [.double p.latitude, .double p.longitude])

def ofBytes (bs : List UInt8) : Native := .wrapper Marker.bytes.name (.bytes bs)

def ofReference (name : String) : Native := .wrapper Marker.reference.name (.text name)

/-- A transform, its operands being in native form already. -/
def ofTransform (tag : String) (operands : List Native) : Native :=
  .wrapper Marker.transform.name (.seq [.text tag, .seq operands])

mutual

/-- A value as native data. -/
def ofValue : Value → Native
  | .null => .null
  | .boolean b => .bool b
  | .integer n => .int n.toInt
  | .double x => .double x
  | .timestamp t => ofTimestamp t
  | .string s => .text s
  | .bytes bs => ofBytes bs
  | .reference name => ofReference name
  | .geoPoint p => ofGeoPoint p
  | .array elements => .seq (ofValues elements)
  | .map fields => .map (ofFields fields)
  | .transform .delete => ofTransform "delete" []
  | .transform .serverTimestamp => ofTransform "serverTimestamp" []
  | .transform (.increment operand) => ofTransform "increment" [ofValue operand]
  | .transform (.arrayUnion elements) => ofTransform "arrayUnion" (ofValues elements)
  | .transform (.arrayRemove elements) => ofTransform "arrayRemove" (ofValues elements)

/-- Some elements as native data. -/
def ofValues : List Value → List Native
  | [] => []
  | v :: rest => ofValue v :: ofValues rest

/-- Some fields as the entries of a native map. -/
def ofFields : List (String × Value) → List (Native × Native)
  | [] => []
  | (k, v) :: rest => (.text k, ofValue v) :: ofFields rest

end

/-- A JSON number as native data: an integer where a 64-bit word holds it, else a
double. -/
def ofJsonNumber : JsonNumber → Native
  | .integer negative magnitude =>
      if negative then
        if 0 < magnitude ∧ magnitude ≤ Nat.pow 2 63 then .int (-magnitude)
        else .double (JsonNumber.integer negative magnitude).toDouble
      else if magnitude < Nat.pow 2 64 then .int magnitude
      else .double (JsonNumber.integer negative magnitude).toDouble
  | .double x => .double x

mutual

/-- A JSON value as native data. -/
def ofJson : Json → Native
  | .null => .null
  | .bool b => .bool b
  | .number n => ofJsonNumber n
  | .string s => .text s
  | .array elements => .seq (ofJsons elements)
  | .object members => .map (ofMembers members)

/-- Some JSON elements as native data. -/
def ofJsons : List Json → List Native
  | [] => []
  | j :: rest => ofJson j :: ofJsons rest

/-- Some JSON members as the entries of a native map. -/
def ofMembers : List (String × Json) → List (Native × Native)
  | [] => []
  | (k, j) :: rest => (.text k, ofJson j) :: ofMembers rest

end

end Native

end Firestore
