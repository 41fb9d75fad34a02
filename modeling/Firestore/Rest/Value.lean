import Firestore.Base64
import Firestore.Json
import Firestore.Number.Numeral
import Firestore.Number.Shortest
import Firestore.Time.Rfc3339
import Firestore.Value

/-!
# Values in the REST notation

The REST notation of a value is an object with one member, whose name tells the
kind.  Integers are texts, bytes are base64, moments are RFC 3339, and the doubles
that JSON has no numeral for are words.  `restEncode` writes it and `restDecode`
reads it.

If an object has several such members, the first kind in `TypeName.all` counts.
The reader also takes integers as numbers and doubles as texts, and an array or a
map whose content is left out is empty.  Refusals carry the trail of names and
positions that leads to the culprit.
-/

namespace Firestore

/-- The kinds of values by their REST names. -/
inductive TypeName where
  | null
  | boolean
  | integer
  | double
  | timestamp
  | string
  | bytes
  | reference
  | geoPoint
  | array
  | map
  deriving DecidableEq, Repr

namespace TypeName

def name : TypeName → String
  | .null => "nullValue"
  | .boolean => "booleanValue"
  | .integer => "integerValue"
  | .double => "doubleValue"
  | .timestamp => "timestampValue"
  | .string => "stringValue"
  | .bytes => "bytesValue"
  | .reference => "referenceValue"
  | .geoPoint => "geoPointValue"
  | .array => "arrayValue"
  | .map => "mapValue"

/-- All kinds, in the order in which a reader looks for them. -/
def all : List TypeName :=
  [.null, .boolean, .integer, .double, .timestamp, .string, .bytes, .reference, .geoPoint,
    .array, .map]

/-- The kind that an object has. -/
def of? (members : List (String × Json)) : Option TypeName :=
  all.find? fun t => (Fields.get? members t.name).isSome

end TypeName

/-- Why a value has no REST notation, or a JSON value is none. -/
inductive RestFault where
  | unwritableTimestamp (t : Timestamp)
  | transform (tag : String)
  | notValue
  | unknownType
  | mapNotObject
  | fieldsNotObject
  | booleanNotBool
  | integerText (fault : Numeral.IntegerFault)
  | integerRange
  | integerKind
  | doubleText (fault : Numeral.FloatFault)
  | doubleKind
  | notText (t : TypeName)
  | timestampText (fault : Rfc3339.Fault)
  | bytesText (fault : Base64.Fault)
  | coordinate (name : String)

def RestFault.message : RestFault → String
  | .unwritableTimestamp t =>
      s!"Timestamp {t.seconds.toInt}s {t.nanos.toInt}ns is outside the supported range"
  | .transform tag =>
      s!"FieldValue.{tag}() is a write-time transform and cannot be sent as a value"
  | .notValue => "Expected Firestore value object"
  | .unknownType => "Unknown Firestore value type"
  | .mapNotObject => "Expected object for map value"
  | .fieldsNotObject => "Expected 'fields' to be an object"
  | .booleanNotBool => "booleanValue must be bool"
  | .integerText fault => s!"Invalid integerValue: {fault.message}"
  | .integerRange => "Integer out of range"
  | .integerKind => "integerValue must be a string or number"
  | .doubleText fault => s!"Invalid doubleValue: {fault.message}"
  | .doubleKind => "doubleValue must be a number or string"
  | .notText .bytes => "bytesValue must be base64 string"
  | .notText t => s!"{t.name} must be string"
  | .timestampText fault => s!"Invalid timestamp: {fault.message}"
  | .bytesText fault => s!"Invalid bytesValue: {fault.message}"
  | .coordinate name => s!"geoPointValue.{name} must be f64"

def RestFault.error (fault : RestFault) : Error := .invalidArgument fault.message

/-! ## Writing -/

/-- A value of one kind. -/
def TypeName.tagged (t : TypeName) (content : Json) : Json := .object [(t.name, content)]

/-- A double, in words where JSON has no numeral. -/
def restDouble (x : Double) : Json :=
  match x with
  | .nan => .string "NaN"
  | .signed negative rank =>
      if rank.val = BinaryFormat.double.infinity then
        .string (if negative then "-Infinity" else "Infinity")
      else .number (.double x)

/-- The text of a moment that the calendar has. -/
def restTimestamp (t : Timestamp) : Except Error String :=
  match t.toDateTime? with
  | some d => .ok (Rfc3339.write d)
  | none => .error (RestFault.unwritableTimestamp t).error

mutual

/-- The REST notation of a value. -/
def restEncode : Value → Except Error Json
  | .null => .ok (TypeName.null.tagged .null)
  | .boolean b => .ok (TypeName.boolean.tagged (.bool b))
  | .integer n => .ok (TypeName.integer.tagged (.string (toString n.toInt)))
  | .double x => .ok (TypeName.double.tagged (restDouble x))
  | .timestamp t => do
      return TypeName.timestamp.tagged (.string (← restTimestamp t))
  | .string s => .ok (TypeName.string.tagged (.string s))
  | .bytes bs => .ok (TypeName.bytes.tagged (.string (Base64.encode bs)))
  | .reference name => .ok (TypeName.reference.tagged (.string name))
  | .geoPoint p =>
      .ok (TypeName.geoPoint.tagged (.object
        [("latitude", .number (.double p.latitude)), ("longitude", .number (.double p.longitude))]))
  | .array elements => do
      return TypeName.array.tagged (.object [("values", .array (← restEncodeAll 0 elements))])
  | .map fields => do
      return TypeName.map.tagged (.object [("fields", .object (← restEncodeFields fields))])
  | .transform t => .error (RestFault.transform t.tag).error

/-- The REST notation of some elements, the first of them at position `index`. -/
def restEncodeAll (index : Nat) : List Value → Except Error (List Json)
  | [] => .ok []
  | v :: rest => do
      let j ← inside (toString index) (restEncode v)
      return j :: (← restEncodeAll (index + 1) rest)

/-- The REST notation of some fields. -/
def restEncodeFields : List (String × Value) → Except Error (List (String × Json))
  | [] => .ok []
  | (key, v) :: rest => do
      let j ← inside key (restEncode v)
      return (key, j) :: (← restEncodeFields rest)

end

/-! ## Reading -/

/-- The moment that an RFC 3339 text stands for. -/
def parseTimestamp (text : String) : Except Error Timestamp :=
  match Rfc3339.read text with
  | .ok d => .ok (.ofDateTime d)
  | .error fault => .error (RestFault.timestampText fault).error

/-- The text of a member that has to be one. -/
def textOf (t : TypeName) (content : Json) : Except Error String :=
  match content with
  | .string s => .ok s
  | _ => .error (RestFault.notText t).error

def decodeInteger (content : Json) : Except Error Int64 :=
  match content with
  | .string s =>
      match Numeral.readInt64 s with
      | .ok n => .ok n
      | .error fault => .error (RestFault.integerText fault).error
  | .number n =>
      match n.toInt64? with
      | some n => .ok n
      | none => .error RestFault.integerRange.error
  | _ => .error RestFault.integerKind.error

def decodeDouble (content : Json) : Except Error Double :=
  match content with
  | .number n => .ok n.toDouble
  | .string s =>
      match Numeral.readDouble s with
      | .ok x => .ok x
      | .error fault => .error (RestFault.doubleText fault).error
  | _ => .error RestFault.doubleKind.error

/-- A coordinate of a point; zero is left out. -/
def coordinateOf (name : String) (content : Json) : Except Error Double :=
  match content.get? name with
  | none => .ok .zero
  | some (.number n) => .ok n.toDouble
  | some _ => .error (RestFault.coordinate name).error

/-- The value of a kind that has no values inside. -/
def decodeLeaf (t : TypeName) (content : Json) : Except Error Value :=
  match t with
  | .boolean =>
      match content with
      | .bool b => .ok (.boolean b)
      | _ => .error RestFault.booleanNotBool.error
  | .integer => .integer <$> decodeInteger content
  | .double => .double <$> decodeDouble content
  | .timestamp => do return .timestamp (← parseTimestamp (← textOf .timestamp content))
  | .string => .string <$> textOf .string content
  | .bytes => do
      match Base64.decodeText (← textOf .bytes content) with
      | .ok bs => return .bytes bs
      | .error fault => throw (RestFault.bytesText fault).error
  | .reference => .reference <$> textOf .reference content
  | .geoPoint => do
      let latitude ← coordinateOf "latitude" content
      let longitude ← coordinateOf "longitude" content
      .geoPoint <$> GeoPoint.make latitude longitude
  | _ => .ok .null

mutual

/-- The value that a REST notation stands for. -/
def restDecode : Json → Except Error Value
  | .object members =>
      match TypeName.of? members with
      | none => .error RestFault.unknownType.error
      | some .array => restDecodeArray members
      | some .map => restDecodeMap members
      | some t => decodeLeaf t ((Fields.get? members t.name).getD .null)
  | _ => .error RestFault.notValue.error

/-- The array that stands among some members. -/
def restDecodeArray : List (String × Json) → Except Error Value
  | [] => .ok (.array [])
  | (name, content) :: rest =>
      if name = TypeName.array.name then
        match content with
        | .object inner => do return .array (← restDecodeValues inner)
        | _ => .ok (.array [])
      else restDecodeArray rest

/-- The elements of the array with some members; without a list of them it is empty. -/
def restDecodeValues : List (String × Json) → Except Error (List Value)
  | [] => .ok []
  | (name, content) :: rest =>
      if name = "values" then
        match content with
        | .array elements => restDecodeAll 0 elements
        | _ => .ok []
      else restDecodeValues rest

/-- The values of some elements, the first of them at position `index`. -/
def restDecodeAll (index : Nat) : List Json → Except Error (List Value)
  | [] => .ok []
  | j :: rest => do
      let v ← inside (toString index) (restDecode j)
      return v :: (← restDecodeAll (index + 1) rest)

/-- The map that stands among some members. -/
def restDecodeMap : List (String × Json) → Except Error Value
  | [] => .ok (.map [])
  | (name, content) :: rest =>
      if name = TypeName.map.name then
        match content with
        | .object inner => do return .map (← restDecodeFields inner)
        | _ => .error RestFault.mapNotObject.error
      else restDecodeMap rest

/-- The fields of the map with some members; without any it is empty. -/
def restDecodeFields : List (String × Json) → Except Error (Fields Value)
  | [] => .ok []
  | (name, content) :: rest =>
      if name = "fields" then
        match content with
        | .object inner => do return Fields.ofList (← restDecodeMembers inner)
        | _ => .error RestFault.fieldsNotObject.error
      else restDecodeFields rest

/-- The values of some members. -/
def restDecodeMembers : List (String × Json) → Except Error (List (String × Value))
  | [] => .ok []
  | (name, j) :: rest => do
      let v ← inside name (restDecode j)
      return (name, v) :: (← restDecodeMembers rest)

end

/-- The fields of a document, which may leave them out. -/
def restDocumentFields (document : Json) : Except Error (Fields Value) :=
  match document with
  | .object members => restDecodeFields members
  | _ => .error RestFault.mapNotObject.error

end Firestore
