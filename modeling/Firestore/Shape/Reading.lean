import Firestore.Shape.Record

/-!
# Reading data of a shape

Every shape has its reader, put together from those of its parts.  `decode` reads
a stored value, `decodeFields` the fields of a document, `decodeJson` JSON text.
-/

namespace Firestore

namespace Shape

/-- What a field of a shape is when its name is missing: options are absent. -/
def whenMissing : Shape → Option Datum
  | .option _ => some .absent
  | _ => none

/-- Reads a moment that the calendar has. -/
def momentReader : Reader := fun format s => do
  let t ← s.readTimestamp format
  match t.toDateTime? with
  | some d => return .moment d
  | none => throw (.invalidArgument s!"timestamp {t.seconds.toInt} is out of range")

mutual

/-- The reader of a shape. -/
def reader : Shape → Reader
  | .bool => fun format s => .bool <$> s.readBool format
  | .int t => fun format s => .int <$> s.readInt t format
  | .single => fun format s => .single <$> s.readSingle format
  | .double => fun format s => .double <$> s.readDouble format
  | .char => fun format s => .char <$> s.readChar format
  | .text => fun format s => .text <$> s.readText format
  | .unit => fun format s => (fun _ => .unit) <$> s.readUnit "unit" format
  | .unitStruct name => fun format s =>
      (fun _ => .unit) <$> s.readUnit s!"unit struct {name}" format
  | .rawBytes => fun format s => .bytes <$> s.readRawBytes format
  | .option inner => .option inner.reader
  | .list item => .list item.reader
  | .array length item =>
      let expected := s!"an array of length {length}"
      .tuple expected expected (List.replicate length item.reader)
  | .tuple items =>
      let reads := readers items
      let expected := s!"a tuple of size {reads.length}"
      .tuple expected expected reads
  | .tupleStruct name items =>
      let reads := readers items
      let title := s!"tuple struct {name}"
      .tuple title s!"{title} with {Format.elementCount reads.length}" reads
  | .wrapper name inner => .wrapper name inner.reader
  | .map keys content => .map keys content.reader
  | .record name fields strict => .record name (fieldReaders fields) strict
  | .openRecord name fields rest => .openRecord name (fieldReaders fields) rest
  | .enum name variants => .enum name (variantReaders variants)
  | .untagged name choices => .untagged name (choiceReaders choices)
  | .timestamp => fun format s => (fun t => .value (.timestamp t)) <$> s.readTimestamp format
  | .geoPoint => fun format s => (fun p => .value (.geoPoint p)) <$> s.readGeoPoint format
  | .bytes => fun format s => (fun bs => .value (.bytes bs)) <$> s.readBytes format
  | .transform => fun format s => (fun t => .value (.transform t)) <$> s.readTransform format
  | .reference => fun format s => .reference <$> s.readReference format
  | .value => fun format s => .value <$> s.readValue format
  | .moment => momentReader
  | .optionalMoment => .option momentReader
  | .empty => .never

/-- The readers of some shapes. -/
def readers : List Shape → List Reader
  | [] => []
  | shape :: rest => shape.reader :: readers rest

/-- The readers of some fields. -/
def fieldReaders : List (Field Shape) → List FieldReader
  | [] => []
  | ⟨name, shape, missing⟩ :: rest =>
      { name := name
        read := shape.reader
        whenEnded := missing
        whenMissing := missing <|> shape.whenMissing } :: fieldReaders rest

/-- The reader of a payload. -/
def payloadReader : Payload Shape → PayloadReader
  | .unit => .unit
  | .one shape => .one shape.reader
  | .tuple shapes => .tuple (readers shapes)
  | .record fields => .record (fieldReaders fields)

/-- The readers of some variants. -/
def variantReaders : List (String × Payload Shape) → List (String × PayloadReader)
  | [] => []
  | (name, payload) :: rest => (name, payloadReader payload) :: variantReaders rest

/-- The readers of some choices. -/
def choiceReaders : List (String × Shape) → List (String × Reader)
  | [] => []
  | (name, shape) :: rest => (name, shape.reader) :: choiceReaders rest

end

/-- Reads a stored value. -/
def decode (shape : Shape) (v : Value) : Except Error Datum :=
  shape.reader .stored (.ofValue v)

/-- Reads the fields of a document. -/
def decodeFields (shape : Shape) (fields : Fields Value) : Except Error Datum :=
  shape.decode (.map fields)

/-- Reads data of a foreign format. -/
def decodeForeign (shape : Shape) (s : Source) : Except Error Datum :=
  shape.reader .foreign s

/-- Reads JSON text; there is none if the text is not JSON or has another shape. -/
def decodeJson? (shape : Shape) (text : String) : Option Datum := do
  let w ← Json.Written.read? text
  (shape.reader .json (.ofWritten Json.maxDepth w)).toOption

end Shape

end Firestore
