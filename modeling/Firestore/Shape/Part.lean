import Firestore.Shape.Reading

/-!
# Parts of shapes and where they sit

A composed shape has parts, which are read from parts of a value: the items of a
sequence, what a map holds under its keys, the fields of a record, what a variant
carries.  `Part.Child` says which part sits one step further down, and `Value.Child`
which value.  Options and wrappers add no step of their own.

`Part.Reaches` walks down a shape and a value together.
-/

namespace Firestore

/-- A value directly inside another one, under its name or its position. -/
inductive Value.Child : Value → String → Value → Prop
  | field {fields : Fields Value} {name : String} {v : Value} (h : fields.get? name = some v) :
      Child (.map fields) name v
  | element {elements : List Value} {index : Nat} {v : Value} (h : elements[index]? = some v) :
      Child (.array elements) (toString index) v

/-- A part of a shape: a shape, or the items or fields that a variant carries. -/
inductive Part where
  | shape (s : Shape)
  | itemsOf (enumName name : String) (shapes : List Shape)
  | fieldsOf (enumName name : String) (fields : List (Field Shape))

/-- The part that a variant carries. -/
def Payload.part? (enumName name : String) : Payload Shape → Option Part
  | .unit => none
  | .one s => some (.shape s)
  | .tuple shapes => some (.itemsOf enumName name shapes)
  | .record fields => some (.fieldsOf enumName name fields)

namespace Part

/-- The reader of a part. -/
def reader : Part → Reader
  | .shape s => s.reader
  | .itemsOf enumName name shapes =>
      let reads := Shape.readers shapes
      let title := s!"tuple variant {enumName}::{name}"
      .tuple title s!"{title} with {Format.elementCount reads.length}" reads
  | .fieldsOf enumName name fields => fun format s => do
      Reader.recordOf s!"struct variant {enumName}::{name}" (Shape.fieldReaders fields) false format
        (← s.answer format .map)

/-- Reads a stored value as a part. -/
def decode (part : Part) (v : Value) : Except Error Datum := part.reader .stored (.ofValue v)

/-- The part that sits one step further down. -/
inductive Child : Part → String → Part → Prop
  | option {inner : Shape} {segment : String} {part : Part}
      (h : Child (.shape inner) segment part) : Child (.shape (.option inner)) segment part
  | wrapper {name : String} {inner : Shape} {segment : String} {part : Part}
      (h : Child (.shape inner) segment part) : Child (.shape (.wrapper name inner)) segment part
  | list (item : Shape) (index : Nat) : Child (.shape (.list item)) (toString index) (.shape item)
  | array {length : Nat} (item : Shape) {index : Nat} (h : index < length) :
      Child (.shape (.array length item)) (toString index) (.shape item)
  | tuple {items : List Shape} {index : Nat} {item : Shape} (h : items[index]? = some item) :
      Child (.shape (.tuple items)) (toString index) (.shape item)
  | tupleStruct {name : String} {items : List Shape} {index : Nat} {item : Shape}
      (h : items[index]? = some item) :
      Child (.shape (.tupleStruct name items)) (toString index) (.shape item)
  | itemsOf {enumName name : String} {items : List Shape} {index : Nat} {item : Shape}
      (h : items[index]? = some item) :
      Child (.itemsOf enumName name items) (toString index) (.shape item)
  | map (keys : KeyShape) (content : Shape) (name : String) :
      Child (.shape (.map keys content)) name (.shape content)
  | record {name : String} {fields : List (Field Shape)} {strict : Bool} {field : Field Shape}
      (h : field ∈ fields) :
      Child (.shape (.record name fields strict)) field.name (.shape field.shape)
  | fieldsOf {enumName name : String} {fields : List (Field Shape)} {field : Field Shape}
      (h : field ∈ fields) : Child (.fieldsOf enumName name fields) field.name (.shape field.shape)
  | enum {enumName name : String} {variants : List (String × Payload Shape)}
      {payload : Payload Shape} {part : Part} (h : (name, payload) ∈ variants)
      (hpart : payload.part? enumName name = some part) :
      Child (.shape (.enum enumName variants)) name part

/-- Walking down a part and a value at once leads to another part and another value. -/
inductive Reaches : Part → Value → List String → Part → Value → Prop
  | here (part : Part) (v : Value) : Reaches part v [] part v
  | step {part next last : Part} {v w node : Value} {segment : String} {path : List String}
      (hpart : part.Child segment next) (hvalue : v.Child segment w)
      (hrest : Reaches next w path last node) : Reaches part v (segment :: path) last node

end Part

namespace Shape

/-- A shape that has no other shapes for its parts. -/
def isSimple : Shape → Bool
  | .bool | .int _ | .single | .double | .char | .text | .unit | .unitStruct _ | .rawBytes
  | .timestamp | .geoPoint | .bytes | .transform | .reference | .value | .moment
  | .optionalMoment | .empty => true
  | _ => false

end Shape

/-- A part whose values are read where they stand: nothing in it is gathered from several fields
or tried as one of some choices, and no wrapper has a reserved name, under which it would read what
is inside a leaf. -/
inductive Part.IsDirect : Part → Prop
  | simple {s : Shape} (h : s.isSimple = true) : IsDirect (.shape s)
  | option {inner : Shape} (h : IsDirect (.shape inner)) : IsDirect (.shape (.option inner))
  | wrapper {name : String} {inner : Shape} (free : Marker.ofName? name = none)
      (h : IsDirect (.shape inner)) : IsDirect (.shape (.wrapper name inner))
  | list {item : Shape} (h : IsDirect (.shape item)) : IsDirect (.shape (.list item))
  | array (length : Nat) {item : Shape} (h : IsDirect (.shape item)) :
      IsDirect (.shape (.array length item))
  | tuple {items : List Shape} (h : ∀ item ∈ items, IsDirect (.shape item)) :
      IsDirect (.shape (.tuple items))
  | tupleStruct (name : String) {items : List Shape} (h : ∀ item ∈ items, IsDirect (.shape item)) :
      IsDirect (.shape (.tupleStruct name items))
  | itemsOf (enumName name : String) {items : List Shape}
      (h : ∀ item ∈ items, IsDirect (.shape item)) : IsDirect (.itemsOf enumName name items)
  | map (keys : KeyShape) {content : Shape} (h : IsDirect (.shape content)) :
      IsDirect (.shape (.map keys content))
  | record (name : String) (strict : Bool) {fields : List (Field Shape)}
      (h : ∀ field ∈ fields, IsDirect (.shape field.shape)) :
      IsDirect (.shape (.record name fields strict))
  | fieldsOf (enumName name : String) {fields : List (Field Shape)}
      (h : ∀ field ∈ fields, IsDirect (.shape field.shape)) :
      IsDirect (.fieldsOf enumName name fields)
  | enum {enumName : String} {variants : List (String × Payload Shape)}
      (h : ∀ name payload part, (name, payload) ∈ variants →
        payload.part? enumName name = some part → IsDirect part) :
      IsDirect (.shape (.enum enumName variants))

end Firestore
