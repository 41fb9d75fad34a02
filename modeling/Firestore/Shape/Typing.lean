import Firestore.Shape.Writing
import Firestore.Value.Everywhere
import Mathlib.Algebra.Group.Int.Defs

/-!
# Data of a shape

`Shape.Has p shape d` says that a program's type of some shape has the datum `d`,
and that `p` holds of every datum inside it together with its own shape.  The
shapes are those that types are built from: scalars other than single-precision
numbers, the leaves, options, sequences, maps under texts, records, wrappers whose
names are not reserved, and variants.  A record has no name twice, and neither has
a choice of variants.

What types promise of their own data is part of this: integers are in range, the
maps inside values are in order, moments are in the calendar, and the path of a
reference has no empty segment and none with a slash.

`Shape.CanStore` is the property of a single datum that storing needs on top.
-/

namespace Firestore.Shape

/-- Data of a type, with a property of every datum inside. -/
inductive Has (p : Shape → Datum → Prop) : Shape → Datum → Prop where
  | bool (b : Bool) (here : p .bool (.bool b)) : Has p .bool (.bool b)
  | int (t : IntType) (n : Int) (holds : t.holds n = true) (here : p (.int t) (.int n)) :
      Has p (.int t) (.int n)
  | double (x : Double) (here : p .double (.double x)) : Has p .double (.double x)
  | char (c : Char) (here : p .char (.char c)) : Has p .char (.char c)
  | text (s : String) (here : p .text (.text s)) : Has p .text (.text s)
  | unit (here : p .unit .unit) : Has p .unit .unit
  | unitStruct (name : String) (here : p (.unitStruct name) .unit) : Has p (.unitStruct name) .unit
  | absent (inner : Shape) (here : p (.option inner) .absent) : Has p (.option inner) .absent
  | present {inner : Shape} {d : Datum} (content : Has p inner d)
      (here : p (.option inner) (.present d)) : Has p (.option inner) (.present d)
  | list {item : Shape} {data : List Datum} (items : ∀ d ∈ data, Has p item d)
      (here : p (.list item) (.seq data)) : Has p (.list item) (.seq data)
  | array {item : Shape} {data : List Datum} (items : ∀ d ∈ data, Has p item d)
      (here : p (.array data.length item) (.seq data)) : Has p (.array data.length item) (.seq data)
  | tuple {shapes : List Shape} {data : List Datum} (length : shapes.length = data.length)
      (items : ∀ pair ∈ shapes.zip data, Has p pair.1 pair.2)
      (here : p (.tuple shapes) (.seq data)) : Has p (.tuple shapes) (.seq data)
  | tupleStruct {name : String} {shapes : List Shape} {data : List Datum}
      (length : shapes.length = data.length)
      (items : ∀ pair ∈ shapes.zip data, Has p pair.1 pair.2)
      (here : p (.tupleStruct name shapes) (.seq data)) :
      Has p (.tupleStruct name shapes) (.seq data)
  | wrapper {name : String} {inner : Shape} {d : Datum} (free : Marker.ofName? name = none)
      (content : Has p inner d) (here : p (.wrapper name inner) d) : Has p (.wrapper name inner) d
  | map {content : Shape} {fields : Fields Datum} (sorted : Fields.Sorted fields)
      (contents : ∀ field ∈ fields, Has p content field.2)
      (here : p (.map .text content) (.map (fields.map fun field => (.text field.1, field.2)))) :
      Has p (.map .text content) (.map (fields.map fun field => (.text field.1, field.2)))
  | record {name : String} {fields : List (Field Shape)} {strict : Bool}
      {data : List (String × Datum)} (nodup : (fields.map Field.name).Nodup)
      (names : fields.map Field.name = data.map Prod.fst)
      (contents : ∀ pair ∈ fields.zip data, Has p pair.1.shape pair.2.2)
      (here : p (.record name fields strict) (.record data)) :
      Has p (.record name fields strict) (.record data)
  | symbol {name chosen : String} {variants : List (String × Payload Shape)}
      (nodup : (variants.map Prod.fst).Nodup) (mem : (chosen, .unit) ∈ variants)
      (here : p (.enum name variants) (.symbol chosen)) :
      Has p (.enum name variants) (.symbol chosen)
  | variant {name chosen : String} {variants : List (String × Payload Shape)}
      {content : Shape} {d : Datum} (nodup : (variants.map Prod.fst).Nodup)
      (mem : (chosen, .one content) ∈ variants) (payload : Has p content d)
      (here : p (.enum name variants) (.variant chosen d)) :
      Has p (.enum name variants) (.variant chosen d)
  | tupleVariant {name chosen : String} {variants : List (String × Payload Shape)}
      {shapes : List Shape} {data : List Datum} (nodup : (variants.map Prod.fst).Nodup)
      (mem : (chosen, .tuple shapes) ∈ variants) (length : shapes.length = data.length)
      (items : ∀ pair ∈ shapes.zip data, Has p pair.1 pair.2)
      (here : p (.enum name variants) (.variant chosen (.seq data))) :
      Has p (.enum name variants) (.variant chosen (.seq data))
  | recordVariant {name chosen : String} {variants : List (String × Payload Shape)}
      {fields : List (Field Shape)} {data : List (String × Datum)}
      (nodup : (variants.map Prod.fst).Nodup) (mem : (chosen, .record fields) ∈ variants)
      (nodupFields : (fields.map Field.name).Nodup)
      (names : fields.map Field.name = data.map Prod.fst)
      (contents : ∀ pair ∈ fields.zip data, Has p pair.1.shape pair.2.2)
      (here : p (.enum name variants) (.variant chosen (.record data))) :
      Has p (.enum name variants) (.variant chosen (.record data))
  | timestamp (t : Timestamp) (here : p .timestamp (.value (.timestamp t))) :
      Has p .timestamp (.value (.timestamp t))
  | geoPoint (q : GeoPoint) (here : p .geoPoint (.value (.geoPoint q))) :
      Has p .geoPoint (.value (.geoPoint q))
  | bytes (bs : List UInt8) (here : p .bytes (.value (.bytes bs))) :
      Has p .bytes (.value (.bytes bs))
  | transform (t : Transform Value) (ordered : (Value.transform t).Ordered)
      (here : p .transform (.value (.transform t))) : Has p .transform (.value (.transform t))
  | value (v : Value) (ordered : v.Ordered) (here : p .value (.value v)) : Has p .value (.value v)
  | reference (d : DocumentReference) (path : ∀ segment ∈ d.path.segments, IsSegment segment)
      (here : p .reference (.reference d)) : Has p .reference (.reference d)
  | moment (d : DateTime) (calendar : DateTime.make? d.seconds d.nanos = some d)
      (here : p .moment (.moment d)) : Has p .moment (.moment d)
  | noMoment (here : p .optionalMoment .absent) : Has p .optionalMoment .absent
  | someMoment (d : DateTime) (calendar : DateTime.make? d.seconds d.nanos = some d)
      (here : p .optionalMoment (.present (.moment d))) :
      Has p .optionalMoment (.present (.moment d))

/-- What storing needs of a datum of a shape: integers fit a 64-bit word,
timestamps are normal, moments are whole seconds, the project and the database of
a reference are segments, and what is present is not written as null. -/
def CanStore : Shape → Datum → Prop
  | .int _, .int n => -2 ^ 63 ≤ n ∧ n < 2 ^ 63
  | .timestamp, .value v | .transform, .value v | .value, .value v =>
      v.TimesAre Timestamp.IsNormal
  | .moment, .moment d | .optionalMoment, .present (.moment d) => d.nanos = 0
  | .reference, .reference d => IsSegment d.database.project ∧ IsSegment d.database.database
  | .option inner, .present d => inner.encode d ≠ .ok .null
  | _, _ => True

end Firestore.Shape
