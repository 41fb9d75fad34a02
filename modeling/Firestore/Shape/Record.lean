import Firestore.Shape
import Firestore.Source.Leaf
import Firestore.Text.Bytes

/-!
# Reading composed data

Readers of options, sequences, maps, records and variants, put together from the
readers of their parts.  The entries of a record are read in the order in which
the source has them; the first refusal counts, and only after all entries is a
missing field noticed, in the order of the record's own fields.  What stands
under an unknown name is passed over.
-/

namespace Firestore

/-- A way to read a datum. -/
abbrev Reader := Format → Source → Except Error Datum

/-- How a field of a record is read, what it is when a sequence ends before it,
and what it is when its name is missing. -/
structure FieldReader where
  name : String
  read : Reader
  whenEnded : Option Datum
  whenMissing : Option Datum

/-- How the payload of a variant is read. -/
inductive PayloadReader where
  | unit
  | one (read : Reader)
  | tuple (reads : List Reader)
  | record (fields : List FieldReader)

namespace Reader

/-- Names between backquotes, as a list of choices; `what` says what they are names of. -/
def oneOf (what : String) (names : List String) : String :=
  match names.map fun name => s!"\x60{name}\x60" with
  | [] => s!"there are no {what}"
  | [a] => s!"expected {a}"
  | [a, b] => s!"expected {a} or {b}"
  | quoted => "expected one of " ++ ", ".intercalate quoted

/-- The refusal of data that no shape has. -/
def never : Reader := fun _ _ => .error (.invalidArgument "no data has this shape")

/-! ## Options, sequences and maps -/

def option (read : Reader) : Reader := fun format s => do
  match ← s.answer format .option with
  | .unit | .absent => return .absent
  | .present inner => .present <$> read format inner
  | shown => throw (shown.mismatch "option")

def list (read : Reader) : Reader := fun format s =>
  .seq <$> s.readList read format

/-- Reads the items that a sequence starts with, each in its own way. -/
def items (expected : String) (format : Format) (index : Nat) :
    List Reader → List Source → Except Error (List Datum)
  | [], _ => .ok []
  | _ :: _, [] => .error (Format.invalidLength index expected)
  | read :: reads, s :: rest => do
      let d ← format.locate (toString index) (read format s)
      return d :: (← items expected format (index + 1) reads rest)

/-- Reads a given sequence of fixed length. -/
def itemsOf (lengthText : String) (reads : List Reader) (format : Format)
    (sources : List Source) : Except Error Datum := do
  let data ← items lengthText format 0 reads sources
  format.finish reads.length (sources.length - reads.length) "sequence"
  return .seq data

/-- Reads a sequence of fixed length. -/
def tuple (expected lengthText : String) (reads : List Reader) : Reader := fun format s => do
  match ← s.answer format .seq with
  | .seq sources => itemsOf lengthText reads format sources
  | shown => throw (shown.mismatch expected)

/-- Reads wrapped data; a sequence of one item will do.  A wrapper of a reserved name asks for the
content of that leaf. -/
def wrapper (name : String) (read : Reader) : Reader := fun format s => do
  match ← s.answer format (.wrapper (Marker.ofName? name)) with
  | .wrapper inner => read format inner
  | .seq [] => throw (Format.invalidLength 0 s!"tuple struct {name} with 1 element")
  | .seq (first :: rest) =>
      let d ← format.locate "0" (read format first)
      format.finish 1 rest.length "sequence"
      return d
  | shown => throw (shown.mismatch s!"tuple struct {name}")

/-- A wrapper of any other name reads a stored value as what it wraps. -/
theorem wrapper_ofValue {name : String} (hfree : Marker.ofName? name = none) (read : Reader)
    (v : Value) : wrapper name read .stored (.ofValue v) = read .stored (.ofValue v) := by
  have hanswer : (Source.ofValue v).answer .stored (.wrapper none) =
      .ok (.wrapper (.ofValue v)) := by
    cases v with
    | transform t => cases t <;> rfl
    | _ => rfl
  rw [wrapper, hfree, hanswer]
  rfl

/-- The place of a name among some names, given as a key of a source. -/
inductive Place where
  | known (index : Nat)
  | unknown (name : String)
  | outside (index : Nat)

/-- Looks a key up among some names; a key may also be a position. -/
def place (expected : String) (names : List String) (format : Format) (k : Source) :
    Except Error Place := do
  let find (name : String) : Place :=
    match names.findIdx? (· == name) with
    | some index => .known index
    | none => .unknown name
  match ← k.answer format .text with
  | .text name => return find name
  | .bytes _ bs => return find (Text.repair bs)
  | .word n => return if n < names.length then .known n else .outside n
  | shown => throw (shown.mismatch expected)

/-- The refusal of a position past the last name. -/
def outsideError (what : String) (count index : Nat) : Error :=
  .typeMismatch s!"{what} index 0 <= i < {count}" s!"integer \x60{index}\x60"

/-- The name of a variant. -/
def variantName (names : List String) (format : Format) (k : Source) : Except Error String := do
  match ← place "variant identifier" names format k with
  | .known index => return names.getD index ""
  | .unknown name =>
      throw (.invalidArgument
        (s!"unknown variant \x60{name}\x60, " ++ oneOf "variants" names))
  | .outside index => throw (outsideError "variant" names.length index)

/-- What a source has as a variant: its name and what it carries. -/
def variantOf (name : String) (format : Format) (s : Source) :
    Except Error (Source × Option Source) :=
  match format, s with
  | .foreign, s => .error ((s.shown .foreign).mismatch s!"enum {name}")
  | _, .text t => .ok (.text t, none)
  | _, .literal l => .ok (.literal l, none)
  | _, .map [(k, payload)] => .ok (k, some payload)
  | .stored, s => .error (.typeMismatch "a variant name or single-entry map" s.kind)
  | .buffered, .map _ => .error (.typeMismatch "map with a single key" "map")
  | format, s => .error ((s.shown format).mismatch "string or map")

/-- A variant that carries nothing. -/
def payloadUnit (format : Format) (payload : Option Source) : Except Error Unit := do
  match payload with
  | none => return ()
  | some s =>
      if format = .stored then
        match s with
        | .unit => return ()
        | s => throw (.typeMismatch "a unit variant" s.kind)
      else s.readUnit "unit" format

/-- Reads a key of a map. -/
def key (shape : KeyShape) (format : Format) (k : Source) : Except Error Key :=
  match shape with
  | .text => .text <$> k.readText format
  | .char => .char <$> k.readChar format
  | .int t => .int <$> k.readInt t format
  | .symbol name names => do
      let (k, carried) ← variantOf name format k
      let chosen ← variantName names format k
      payloadUnit format carried
      return .symbol chosen

/-- Reads entries one by one, the key before what it holds. -/
def entries (readKey : Format → Source → Except Error Key) (read : Reader) (format : Format) :
    List (Source × Source) → Except Error (List (Key × Datum))
  | [] => .ok []
  | (k, s) :: rest => do
      let k ← readKey format.keys k
      let d ← format.locate k.written (read format s)
      return (k, d) :: (← entries readKey read format rest)

def map (keys : KeyShape) (read : Reader) : Reader := fun format s => do
  match ← s.answer format .map with
  | .map sources => .ofEntries <$> entries (key keys) read format sources
  | shown => throw (shown.mismatch "a map")

/-! ## Records -/

/-- The field that a key names, if the record knows it. -/
def fieldAt (fields : List FieldReader) (strict : Bool) (format : Format) (k : Source) :
    Except Error (Option FieldReader) := do
  match ← place "field identifier" (fields.map FieldReader.name) format k with
  | .known index => return fields[index]?
  | .unknown name =>
      if strict then
        throw (.invalidArgument
          (s!"unknown field \x60{name}\x60, " ++ oneOf "fields" (fields.map FieldReader.name)))
      else return none
  | .outside index =>
      if strict then throw (outsideError "field" fields.length index) else return none

/-- Reads a field that was not read before. -/
def newField (field : FieldReader) (seen : List (String × Datum)) (format : Format)
    (s : Source) : Except Error (List (String × Datum)) :=
  if (seen.lookup field.name).isSome then
    .error (.invalidArgument s!"duplicate field \x60{field.name}\x60")
  else do
    let d ← format.locate field.name (field.read format s)
    return (field.name, d) :: seen

/-- Reads the entries of a record. -/
def fieldEntries (fields : List FieldReader) (strict : Bool) (format : Format)
    (seen : List (String × Datum)) : List (Source × Source) → Except Error (List (String × Datum))
  | [] => .ok seen
  | (k, s) :: rest => do
      match ← fieldAt fields strict format.keys k with
      | none => do
          let _ ← s.answer format .skip
          fieldEntries fields strict format seen rest
      | some field => do
          let seen ← newField field seen format s
          fieldEntries fields strict format seen rest

/-- The fields of a record in their order, those that were not read as they are
when missing. -/
def collect (seen : List (String × Datum)) :
    List FieldReader → Except Error (List (String × Datum))
  | [] => .ok []
  | field :: rest => do
      match seen.lookup field.name <|> field.whenMissing with
      | some d => return (field.name, d) :: (← collect seen rest)
      | none => throw (.missingField field.name)

/-- Reads the fields of a record from a sequence. -/
def fieldItems (lengthText : String) (format : Format) (index : Nat) :
    List FieldReader → List Source → Except Error (List (String × Datum))
  | [], _ => .ok []
  | field :: fields, s :: rest => do
      let d ← format.locate (toString index) (field.read format s)
      return (field.name, d) :: (← fieldItems lengthText format (index + 1) fields rest)
  | field :: fields, [] => do
      match field.whenEnded with
      | some d => return (field.name, d) :: (← fieldItems lengthText format (index + 1) fields [])
      | none => throw (Format.invalidLength index lengthText)

/-- Reads a record from what its source shows. -/
def recordOf (title : String) (fields : List FieldReader) (strict : Bool) (format : Format)
    (shown : Shown) : Except Error Datum := do
  match shown with
  | .map sources =>
      let seen ← fieldEntries fields strict format [] sources
      .record <$> collect seen fields
  | .seq sources =>
      let lengthText := s!"{title} with {Format.elementCount fields.length}"
      let data ← fieldItems lengthText format 0 fields sources
      format.finish fields.length (sources.length - fields.length) "sequence"
      return .record data
  | shown => throw (shown.mismatch title)

def record (name : String) (fields : List FieldReader) (strict : Bool) : Reader :=
  fun format s => do
    recordOf s!"struct {name}" fields strict format (← s.answer format .map)

/-- The key of an entry that a record does not know, as it is kept. -/
def otherKey (format : Format) (k : Source) : Except Error Source := do
  match k.shown format with
  | .absent | .present _ | .wrapper _ | .seq _ | .map _ =>
      throw ((k.shown format).mismatch "field identifier")
  | _ => k.buffer format

/-- Reads the entries of a record that gathers what it does not know. -/
def openEntries (fields : List FieldReader) (format : Format) (seen : List (String × Datum))
    (others : List (Source × Source)) :
    List (Source × Source) → Except Error (List (String × Datum) × List (Source × Source))
  | [] => .ok (seen, others.reverse)
  | (k, s) :: rest => do
      let known :=
        match k.shown format.keys with
        | .text name => fields.find? fun field => field.name == name
        | .bytes _ bs =>
            fields.find? fun field => Text.ofBytes? bs == some field.name
        | _ => none
      match known with
      | some field => do
          let seen ← newField field seen format s
          openEntries fields format seen others rest
      | none => do
          let k ← otherKey format.keys k
          let s ← s.buffer format
          openEntries fields format seen ((k, s) :: others) rest

/-- Reads a record that gathers the fields it does not know, as values. -/
def openRecord (name : String) (fields : List FieldReader) (gathered : String) : Reader :=
  fun format s => do
    match ← s.answer format .map with
    | .map sources =>
        let (seen, others) ← openEntries fields format [] [] sources
        let data ← collect seen fields
        let readAny : Reader := fun format s => .value <$> s.readValue format
        let rest ← entries (key .text) readAny .buffered others
        return .record (data ++ [(gathered, .ofEntries rest)])
    | shown => throw (shown.mismatch s!"struct {name}")

/-! ## Variants -/

/-- The refusal of a variant without the payload that its shape has. -/
def noPayload (format : Format) (expected : String) : Error :=
  .typeMismatch (if format = .stored then s!"a {expected}" else expected) "unit variant"

/-- What a variant carries, if it has to carry anything. -/
def payloadOf (format : Format) (expected : String) (payload : Option Source) :
    Except Error Source :=
  match payload with
  | some s => .ok s
  | none => .error (noPayload format expected)

/-- The forms of what a variant carries. -/
inductive PayloadForm where
  | unit
  | one
  | tuple
  | record
  deriving DecidableEq, Repr

/-- What a stored value shows as a variant: its name, and what it carries in a form. -/
def storedVariant (form : PayloadForm) (s : Source) : Except Error (String × Option Shown) := do
  let (k, carried) ← variantOf "" .stored s
  let name ← k.readText .storedName
  let ask (expected : String) (question : Question) : Except Error (String × Option Shown) := do
    let payload ← payloadOf .stored expected carried
    return (name, some (← inside name (payload.answer .stored question)))
  match form with
  | .unit =>
      payloadUnit .stored carried
      return (name, none)
  | .one => ask "newtype variant" .any
  | .tuple => ask "tuple variant" .seq
  | .record => ask "struct variant" .map

/-- Reads what a variant carries. -/
def payload (enumName name : String) (read : PayloadReader) (format : Format)
    (carried : Option Source) : Except Error Datum := do
  match read with
  | .unit =>
      payloadUnit format carried
      return .symbol name
  | .one read =>
      let s ← payloadOf format "newtype variant" carried
      .variant name <$> format.locate name (read format s)
  | .tuple reads =>
      let s ← payloadOf format "tuple variant" carried
      let title := s!"tuple variant {enumName}::{name}"
      let lengthText := s!"{title} with {Format.elementCount reads.length}"
      .variant name <$> format.locate name (tuple title lengthText reads format s)
  | .record fields =>
      let s ← payloadOf format "struct variant" carried
      let title := s!"struct variant {enumName}::{name}"
      .variant name <$> format.locate name do
        recordOf title fields false format (← s.answer format .map)

def enum (name : String) (variants : List (String × PayloadReader)) : Reader :=
  fun format s => do
    let (k, carried) ← variantOf name format s
    let chosen ← variantName (variants.map Prod.fst) format.keys k
    match variants.lookup chosen with
    | some read => payload name chosen read format carried
    | none => throw (.internal s!"no variant {chosen}")

/-- Reads data as the first of some choices that it has. -/
def untagged (name : String) (choices : List (String × Reader)) : Reader := fun format s => do
  let kept ← s.buffer format
  let rec first : List (String × Reader) → Except Error Datum
    | [] => .error (.invalidArgument s!"data did not match any variant of untagged enum {name}")
    | (choice, read) :: rest =>
        match read .buffered kept with
        | .ok d => .ok (.variant choice d)
        | .error _ => first rest
  first choices

end Reader

end Firestore
