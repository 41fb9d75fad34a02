import Firestore.Native.Encoding
import Firestore.Shape

/-!
# Writing data of a shape

How data of a shape shows itself to a writer, put together from its parts.
Options, wrappers and variants show the names that their shapes give them, and a
leaf shows itself in its wrapper of a reserved name.  `encode` makes the stored
value, and `encodeFields` the fields of a document.
-/

namespace Firestore

/-- A key of a map as native data. -/
def Key.native : Key → Native
  | .text s => .text s
  | .char c => .text c.toString
  | .int n => .int n
  | .symbol name => .text name

namespace Shape

/-- Data that its shape does not have. -/
def unshaped : Native := .refusal "the data has another shape"

/-- A calendar moment as native data, to the second. -/
def nativeMoment (d : DateTime) : Native := .ofTimestamp (.ofDateTimeSeconds d)

/-- What a record gathered besides its own fields. -/
def nativeGathered : List (String × Datum) → List (Native × Native)
  | [(_, .map entries)] =>
      entries.map fun entry =>
        match entry.2 with
        | .value v => (entry.1.native, .ofValue v)
        | _ => (entry.1.native, unshaped)
  | _ => []

mutual

/-- How data of a shape shows itself. -/
def native : Shape → Datum → Native
  | .bool, .bool b => .bool b
  | .int _, .int n => .int n
  | .single, .single x => .double x.convert
  | .double, .double x => .double x
  | .char, .char c => .text c.toString
  | .text, .text s => .text s
  | .unit, .unit => .null
  | .unitStruct _, .unit => .null
  | .rawBytes, .bytes bs => .bytes bs
  | .option _, .absent => .null
  | .option inner, .present d => .present (inner.native d)
  | .list item, .seq items => .seq (items.map item.native)
  | .array _ item, .seq items => .seq (items.map item.native)
  | .tuple shapes, .seq items => .seq (natives shapes items)
  | .tupleStruct _ shapes, .seq items => .seq (natives shapes items)
  | .wrapper name inner, d => .wrapper name (inner.native d)
  | .map _ content, .map entries =>
      .map (entries.map fun entry => (entry.1.native, content.native entry.2))
  | .record _ fields _, .record data => .record (nativeFields fields data)
  | .openRecord _ fields _, .record data =>
      .map ((nativeFields fields data).map (fun field => (.text field.1, field.2)) ++
        nativeGathered (data.drop fields.length))
  | .enum _ _, .symbol name => .text name
  | .enum _ variants, .variant name d => nativeVariant variants name d
  | .untagged _ choices, .variant name d => nativeChoice choices name d
  | .timestamp, .value v => .ofValue v
  | .geoPoint, .value v => .ofValue v
  | .bytes, .value v => .ofValue v
  | .transform, .value v => .ofValue v
  | .reference, .reference d => .ofReference d.name
  | .value, .value v => .ofValue v
  | .moment, .moment d => nativeMoment d
  | .optionalMoment, .absent => .null
  | .optionalMoment, .present (.moment d) => .present (nativeMoment d)
  | _, _ => unshaped

/-- How the items of a sequence show themselves, each of its own shape. -/
def natives : List Shape → List Datum → List Native
  | shape :: shapes, d :: data => shape.native d :: natives shapes data
  | _, _ => []

/-- How the fields of a record show themselves, under the names of its shape. -/
def nativeFields : List (Field Shape) → List (String × Datum) → List (String × Native)
  | ⟨name, shape, _⟩ :: fields, (_, d) :: data =>
      (name, shape.native d) :: nativeFields fields data
  | _, _ => []

/-- How a variant with a payload shows itself. -/
def nativeVariant : List (String × Payload Shape) → String → Datum → Native
  | [], _, _ => unshaped
  | (name, payload) :: rest, chosen, d =>
      if chosen = name then .variant name (nativePayload payload d)
      else nativeVariant rest chosen d

/-- How the payload of a variant shows itself. -/
def nativePayload : Payload Shape → Datum → Native
  | .one shape, d => shape.native d
  | .tuple shapes, .seq items => .seq (natives shapes items)
  | .record fields, .record data => .record (nativeFields fields data)
  | _, _ => unshaped

/-- How data shows itself that is one of some choices; the choice is not seen. -/
def nativeChoice : List (String × Shape) → String → Datum → Native
  | [], _, _ => unshaped
  | (name, shape) :: rest, chosen, d =>
      if chosen = name then shape.native d else nativeChoice rest chosen d

end

/-- The stored value of some data. -/
def encode (shape : Shape) (d : Datum) : Except Error Value :=
  (shape.native d).encode

/-- The fields of the document that some data makes. -/
def encodeFields (shape : Shape) (d : Datum) : Except Error (Fields Value) :=
  (shape.native d).encodeFields

end Shape

end Firestore
