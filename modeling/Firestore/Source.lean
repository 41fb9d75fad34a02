import Firestore.Error
import Firestore.Json.Written
import Firestore.Marker
import Firestore.Text.Bytes

/-!
# What data is read from

A source is a tree of data that a reader of some expected shape walks through.
It comes in four formats.

* **Stored** values know their kind, and a reader that asks for another kind is
  refused.  Refusals are located: the trail tells where the reader was.
* **Buffered** data has been taken from another source before its reader was
  known.
* **Foreign** data shows what it is, whatever the reader asks for.
* **JSON** text has few kinds of its own, so a reader's question decides much of
  what it is shown.

The keys of a map are sources themselves; those of stored maps are texts, and those
of JSON objects are strings as they are written.

JSON text may hold strings that are no text, numbers past the largest one, and
arrays and objects nested too deep.  Such data can be passed over, but not read.

Buffering is modelled as far as it ends.  A stored map whose first name is reserved
has itself for content under the name for maps, so that a buffer that unfolds it
goes on for ever; here it is unfolded once (`Source.buffer`).
-/

namespace Firestore

/-- Where a source comes from. -/
inductive Format where
  | stored
  | buffered
  | foreign
  | json
  /-- The name of a field of a stored map. -/
  | storedName
  /-- The name of a member of a JSON object. -/
  | jsonName
  deriving DecidableEq, Repr

/-- Data to be read. -/
inductive Source where
  | unit
  | absent
  | present (inner : Source)
  | bool (b : Bool)
  | int (n : Int64)
  | word (n : UInt64)
  /-- An integer numeral of JSON, of any size. -/
  | numeral (negative : Bool) (magnitude : Nat)
  | double (x : Double)
  | text (s : String)
  /-- A string of JSON text. -/
  | literal (l : Json.Literal)
  /-- Bytes, which the reader may keep if they are `owned`. -/
  | bytes (owned : Bool) (bs : List UInt8)
  | wrapper (inner : Source)
  | seq (items : List Source)
  | map (entries : List (Source × Source))
  /-- A leaf of a stored value, with its content. -/
  | leaf (m : Marker) (content : Source)
  /-- Data past a limit of JSON text. -/
  | beyond (inner : Source)

namespace Source

/-- The content of a stored moment. -/
def ofTimestamp (t : Timestamp) : Source :=
  .leaf .timestamp (.seq [.int t.seconds, .int t.nanos.toInt64])

/-- The content of a stored transform. -/
def ofTransform (tag : String) (operands : List Source) : Source :=
  .leaf .transform (.seq [.text tag, .seq operands])

mutual

/-- A stored value as a source. -/
def ofValue : Value → Source
  | .null => .unit
  | .boolean b => .bool b
  | .integer n => .int n
  | .double x => .double x
  | .timestamp t => ofTimestamp t
  | .string s => .text s
  | .bytes bs => .bytes true bs
  | .reference name => .leaf .reference (.text name)
  | .geoPoint p => .leaf .geoPoint (.seq [.double p.latitude, .double p.longitude])
  | .array elements => .seq (ofValues elements)
  | .map fields => .map (ofFields fields)
  | .transform .delete => ofTransform "delete" []
  | .transform .serverTimestamp => ofTransform "serverTimestamp" []
  | .transform (.increment operand) => ofTransform "increment" [ofValue operand]
  | .transform (.arrayUnion elements) => ofTransform "arrayUnion" (ofValues elements)
  | .transform (.arrayRemove elements) => ofTransform "arrayRemove" (ofValues elements)

/-- Stored elements as sources. -/
def ofValues : List Value → List Source
  | [] => []
  | v :: rest => ofValue v :: ofValues rest

/-- Stored fields as the entries of a source. -/
def ofFields : List (String × Value) → List (Source × Source)
  | [] => []
  | (k, v) :: rest => (.text k, ofValue v) :: ofFields rest

end

/-- Data that may be nested `depth` deep. -/
def limited (depth : Nat) (s : Source) : Source :=
  if depth = 0 then .beyond s else s

/-- A number of JSON text. -/
def ofWrittenNumber (n : Json.Numeral) : Source :=
  match n.number? with
  | some (.integer negative magnitude) => .numeral negative magnitude
  | some (.double x) => .double x
  | none => .beyond (.double (.infinite n.negative))

mutual

/-- JSON text as a source; arrays and objects may be nested `depth` deep. -/
def ofWritten (depth : Nat) : Json.Written → Source
  | .null => .unit
  | .bool b => .bool b
  | .number n => ofWrittenNumber n
  | .string l => .literal l
  | .array elements => limited depth (.seq (ofElements (depth - 1) elements))
  | .object members => limited depth (.map (ofMembers (depth - 1) members))

/-- Elements of JSON text as sources. -/
def ofElements (depth : Nat) : List Json.Written → List Source
  | [] => []
  | w :: rest => ofWritten depth w :: ofElements depth rest

/-- Members of JSON text as the entries of a source. -/
def ofMembers (depth : Nat) : List (Json.Literal × Json.Written) → List (Source × Source)
  | [] => []
  | (l, w) :: rest => (.literal l, ofWritten depth w) :: ofMembers depth rest

end

/-- An integer numeral as a word where one holds it, else as a double. -/
def ofNumeral (negative : Bool) (magnitude : Nat) : Source :=
  if negative then
    if 0 < magnitude ∧ magnitude ≤ Nat.pow 2 63 then .int (.ofInt (-magnitude))
    else .double (JsonNumber.integer negative magnitude).toDouble
  else if magnitude < Nat.pow 2 64 then .word (.ofNat magnitude)
  else .double (JsonNumber.integer negative magnitude).toDouble

/-- The name of a stored value's kind; other formats have no kinds. -/
def kind : Source → String
  | .unit => "null"
  | .bool _ => "boolean"
  | .int _ => "integer"
  | .double _ => "double"
  | .text _ => "string"
  | .bytes _ _ => "bytes"
  | .seq _ => "array"
  | .map _ => "map"
  | .leaf m _ => m.kind
  | _ => "value"

/-- Whether the first name of some entries is reserved. -/
def startsReserved : List (Source × Source) → Bool
  | (.text name, _) :: _ => Marker.isReserved name
  | _ => false

/-- The refusal of data that can only be passed over. -/
def illFormed : Error := .invalidArgument "ill-formed data"

mutual

/-- Whether data can be passed over: no string in it has a control character. -/
def canSkip : Source → Bool
  | .literal l => !l.hasControl
  | .beyond inner => canSkip inner
  | .seq items => canSkipAll items
  | .map entries => canSkipEntries entries
  | _ => true

/-- Whether all of some items can be passed over. -/
def canSkipAll : List Source → Bool
  | [] => true
  | s :: rest => canSkip s && canSkipAll rest

/-- Whether all of some entries can be passed over. -/
def canSkipEntries : List (Source × Source) → Bool
  | [] => true
  | (k, s) :: rest => canSkip k && canSkip s && canSkipEntries rest

end

mutual

/-- The data as it is kept until its reader is known: leaves and maps that start
with a reserved name take their general form, and JSON text is read for good.

A stored map that starts with a reserved name is shown under the name for maps
once, and its entries are kept as they are from there on.  A program that asks the
content for what it is meets the same map again, and never comes to an end. -/
def buffer (format : Format) : Source → Except Error Source
  | .present inner => .present <$> buffer format inner
  | .numeral negative magnitude => .ok (ofNumeral negative magnitude)
  | .literal l =>
      match l.text? with
      | some t => .ok (.text t)
      | none => .error illFormed
  | .bytes _ bs => .ok (.bytes true bs)
  | .wrapper inner => .wrapper <$> buffer format inner
  | .seq items => .seq <$> bufferAll format items
  | .map entries => do
      let kept ← bufferEntries format entries
      if format = .stored ∧ startsReserved entries then
        return .map [(.text Marker.literalMap, .map kept)]
      else return .map kept
  | .leaf m content => do return .map [(.text m.name, ← buffer format content)]
  | .beyond _ => .error illFormed
  | s => .ok s

/-- Some items as they are kept. -/
def bufferAll (format : Format) : List Source → Except Error (List Source)
  | [] => .ok []
  | s :: rest => do return (← buffer format s) :: (← bufferAll format rest)

/-- Some entries as they are kept. -/
def bufferEntries (format : Format) :
    List (Source × Source) → Except Error (List (Source × Source))
  | [] => .ok []
  | (k, s) :: rest => do
      let k ← buffer format k
      let s ← buffer format s
      return (k, s) :: (← bufferEntries format rest)

end

end Source

end Firestore
