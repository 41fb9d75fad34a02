import Firestore.Native

/-!
# From native data to values

Every kind of native data has one kind of value: nothing is null, integers have
to fit 64 bits, variants with a payload are maps of one field, and wrappers are
looked through unless their name is reserved.  Keys of maps are texts, or
integers, which are written out.

The first item that cannot be encoded, in the order of writing, is reported with
the trail of positions, names and variants that leads to it.
-/

namespace Firestore

/-- Why native data cannot be a value. -/
inductive EncodingFault where
  | integerTooWide (n : Int)
  | malformedLeaf (m : Marker)
  | keyNotText
  | valueBeforeKey
  | notMap (kind : String)

def EncodingFault.error : EncodingFault → Error
  | .integerTooWide n => .unsupportedValue s!"Integer {n} does not fit in a 64-bit signed integer"
  | .malformedLeaf m => .unsupportedValue s!"Malformed payload for {m.name}"
  | .keyNotText => .unsupportedValue "Map keys must be strings"
  | .valueBeforeKey => .invalidArgument "Map value serialized before its key"
  | .notMap kind => .invalidArgument s!"Document data must encode to a map, got {kind}"

/-- An integer as a 64-bit word. -/
def int64? (n : Int) : Option Int64 :=
  if Int64.minValue.toInt ≤ n ∧ n ≤ Int64.maxValue.toInt then some (.ofInt n) else none

/-- An integer as a 32-bit word. -/
def int32? (n : Int) : Option Int32 :=
  if Int32.minValue.toInt ≤ n ∧ n ≤ Int32.maxValue.toInt then some (.ofInt n) else none

/-- The leaf of a reserved name, made from the value that the name wraps. -/
def Value.leaf (m : Marker) (payload : Value) : Except Error Value :=
  let malformed : Except Error Value := .error (EncodingFault.malformedLeaf m).error
  match m, payload with
  | .timestamp, .array [.integer seconds, .integer nanos] =>
      match int32? nanos.toInt with
      | some nanos => .ok (.timestamp (.normalized seconds nanos))
      | none => malformed
  | .geoPoint, .array [latitude, longitude] =>
      match latitude.double?, longitude.double? with
      | some latitude, some longitude => .geoPoint <$> GeoPoint.make latitude longitude
      | _, _ => malformed
  | .bytes, .bytes bs => .ok (.bytes bs)
  | .reference, .string name => .ok (.reference name)
  | .transform, .array [.string tag, .array operands] =>
      match Transform.ofParts? tag operands with
      | some t => .ok (.transform t)
      | none => malformed
  | _, _ => malformed

namespace Native

/-- The key that native data makes. -/
def key : Native → Except Error String
  | .text s => .ok s
  | .int n => .ok (toString n)
  | .wrapper _ inner => inner.key
  | .refusal message => .error (.invalidArgument message)
  | _ => .error EncodingFault.keyNotText.error

mutual

/-- The value that native data makes. -/
def encode : Native → Except Error Value
  | .null => .ok .null
  | .bool b => .ok (.boolean b)
  | .int n =>
      match int64? n with
      | some n => .ok (.integer n)
      | none => .error (EncodingFault.integerTooWide n).error
  | .double x => .ok (.double x)
  | .text s => .ok (.string s)
  | .bytes bs => .ok (.bytes bs)
  | .present inner => inner.encode
  | .wrapper name inner => do
      let payload ← inner.encode
      match Marker.ofName? name with
      | some m => payload.leaf m
      | none => return payload
  | .variant name payload => do
      let payload ← inside name payload.encode
      return .map [(name, payload)]
  | .seq items => do
      let elements ← encodeAll 0 items
      return .array elements
  | .map entries => do
      let fields ← encodeEntries entries
      return .map (Fields.ofList fields)
  | .keyless => .error EncodingFault.valueBeforeKey.error
  | .refusal message => .error (.invalidArgument message)

/-- The values of some items, the first of them at position `index`. -/
def encodeAll (index : Nat) : List Native → Except Error (List Value)
  | [] => .ok []
  | item :: rest => do
      let v ← inside (toString index) item.encode
      return v :: (← encodeAll (index + 1) rest)

/-- The keys and values of some entries, as they are written. -/
def encodeEntries : List (Native × Native) → Except Error (List (String × Value))
  | [] => .ok []
  | (k, item) :: rest => do
      let name ← k.key
      let v ← inside name item.encode
      return (name, v) :: (← encodeEntries rest)

end

/-- The fields that native data makes, which a document needs. -/
def encodeFields (data : Native) : Except Error (Fields Value) := do
  match ← data.encode with
  | .map fields => return fields
  | v => throw (EncodingFault.notMap v.kind).error

end Native

end Firestore
