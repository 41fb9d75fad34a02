import Firestore.Reference
import Firestore.Source.Scalar

/-!
# Reading leaves

A reader that wants a moment, a point, bytes, a reference or a transform asks for
wrapped data of the reserved name and reads the content it is shown.  The same
contents, under the reserved names, are recognised inside general data.
-/

namespace Firestore.Source

/-- The moment of seconds and nanoseconds. -/
def timestampContent (format : Format) (s : Source) : Except Error Timestamp := do
  let (seconds, nanos) ← readPair readSeconds readNanos format s
  return .normalized seconds nanos

/-- The point of two coordinates. -/
def geoPointContent (format : Format) (s : Source) : Except Error GeoPoint := do
  let (latitude, longitude) ← readPair readDouble readDouble format s
  asPlain (GeoPoint.make latitude longitude)

/-- Bytes, or the numbers that stand for them. -/
def bytesContent (format : Format) (s : Source) : Except Error (List UInt8) := do
  match ← s.answer format .bytes with
  | .bytes _ bs => return bs
  | .seq items => readEach readByte format 0 items
  | shown => throw (shown.mismatch Marker.bytes.description)

/-- The transform of a tag and operands. -/
def makeTransform (tag : String) (operands : List Value) : Except Error (Transform Value) :=
  match Transform.ofParts? tag operands with
  | some t => .ok t
  | none => .error (.invalidArgument s!"unknown field transform '{tag}'")

/-- What a reader of a leaf finds wrapped; foreign data may leave the wrapper of a
moment out. -/
def readTimestamp (format : Format) (s : Source) : Except Error Timestamp := do
  match ← s.answer format (.wrapper (some .timestamp)) with
  | .wrapper content => timestampContent format content
  | .seq items =>
      let (seconds, nanos) ← readTwo readSeconds readNanos format items
      return .normalized seconds nanos
  | shown => throw (shown.mismatch Marker.timestamp.description)

def readGeoPoint (format : Format) (s : Source) : Except Error GeoPoint := do
  match ← s.answer format (.wrapper (some .geoPoint)) with
  | .wrapper content => geoPointContent format content
  | shown => throw (shown.mismatch Marker.geoPoint.description)

def readBytes (format : Format) (s : Source) : Except Error (List UInt8) := do
  match ← s.answer format (.wrapper (some .bytes)) with
  | .wrapper content => bytesContent format content
  | shown => throw (shown.mismatch Marker.bytes.description)

/-- Reads the full name of a document; a bare text will do. -/
def readReferenceName (format : Format) (s : Source) : Except Error String := do
  match ← s.answer format (.wrapper (some .reference)) with
  | .wrapper content => readText format content
  | .text name => return name
  | shown => throw (shown.mismatch Marker.reference.description)

/-- Reads the reference of a document. -/
def readReference (format : Format) (s : Source) : Except Error DocumentReference := do
  let name ← readReferenceName format s
  asPlain (DocumentReference.ofName name)

/-- A value that a leaf content makes, transforms apart. -/
def readPlainLeaf (format : Format) (m : Marker) (content : Source) : Except Error Value :=
  match m with
  | .timestamp => .timestamp <$> timestampContent format content
  | .geoPoint => .geoPoint <$> geoPointContent format content
  | .bytes => .bytes <$> readList readByte format content
  | .reference => .reference <$> readText format content
  | .transform => do
      -- Only contents whose operands are no sequence are read here, to be refused.
      let (tag, operands) ← readPair readText (readList fun _ _ => .ok Value.null) format content
      .transform <$> makeTransform tag operands

/-- A word as a stored integer. -/
def integerOfWord (n : UInt64) : Except Error Value :=
  if n.toNat < Nat.pow 2 63 then .ok (.integer (.ofNat n.toNat))
  else .error (.invalidArgument
    s!"integer {n.toNat} does not fit in 64-bit signed range")

/-- A scalar that is read for good, as a value. -/
def scalarValue : Source → Except Error Value
  | .bool b => .ok (.boolean b)
  | .int n => .ok (.integer n)
  | .word n => integerOfWord n
  | .double x => .ok (.double x)
  | .text s => .ok (.string s)
  | .bytes _ bs => .ok (.bytes bs)
  | _ => .ok .null

mutual

/-- Reads any data as a value.  Leaves are recognised by the reserved name that an
entry starts with; a map under the name for maps is taken as it stands. -/
def readValue (format : Format) : Source → Except Error Value
  | .present inner => readValue format inner
  | .wrapper inner => readValue format inner
  | .seq items => do
      let elements ← readValues format 0 items
      return .array elements
  | .leaf m content => format.locate m.name (readLeaf format m content)
  | .map [] => .ok (.map [])
  | .map ((k, s) :: rest) =>
      if format = .stored ∧ startsReserved [(k, s)] then do
        let fields ← inside Marker.literalMap (readEntries format ((k, s) :: rest))
        return .map (Fields.ofList fields)
      else do
        let name ← readText format.keys k
        match Marker.ofName? name with
        | some m => do
            let v ← format.locate name (readLeaf format m s)
            format.finish 1 rest.length "map"
            return v
        | none =>
            if name = Marker.literalMap then do
              let v ← format.locate name (readLiteral format s)
              format.finish 1 rest.length "map"
              return v
            else do
              let fields ← readEntries format ((k, s) :: rest)
              return .map (Fields.ofList fields)
  | s => do scalarValue (← s.buffer format)

/-- Reads the content of a leaf as a value. -/
def readLeaf (format : Format) (m : Marker) : Source → Except Error Value
  | .seq (tag :: .seq operands :: left) =>
      match m with
      | .transform => do
          let tag ← format.locate "0" (readText format tag)
          let operands ← format.locate "1" (readValues format 0 operands)
          format.finish 2 left.length "sequence"
          .transform <$> makeTransform tag operands
      | m => readPlainLeaf format m (.seq (tag :: .seq operands :: left))
  | content => readPlainLeaf format m content

/-- Reads a map that is no leaf whatever its names are. -/
def readLiteral (format : Format) : Source → Except Error Value
  | .map entries => do
      let fields ← readEntries format entries
      return .map (Fields.ofList fields)
  | s => do
      throw ((← s.answer format .map).mismatch "a map")

/-- Reads items as values, the first of them at position `index`. -/
def readValues (format : Format) (index : Nat) : List Source → Except Error (List Value)
  | [] => .ok []
  | s :: rest => do
      let v ← format.locate (toString index) (readValue format s)
      return v :: (← readValues format (index + 1) rest)

/-- Reads entries as fields, in the order in which they stand. -/
def readEntries (format : Format) :
    List (Source × Source) → Except Error (List (String × Value))
  | [] => .ok []
  | (k, s) :: rest => do
      let name ← readText format.keys k
      let v ← format.locate name (readValue format s)
      return (name, v) :: (← readEntries format rest)

end

/-- Reads a transform. -/
def readTransform (format : Format) (s : Source) : Except Error (Transform Value) := do
  match ← s.answer format (.wrapper (some .transform)) with
  | .wrapper content =>
      let (tag, operands) ← readPair readText (readList readValue) format content
      makeTransform tag operands
  | shown => throw (shown.mismatch Marker.transform.description)

end Firestore.Source
