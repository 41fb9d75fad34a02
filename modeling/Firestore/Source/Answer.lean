import Firestore.Json.Reader
import Firestore.Number.IntType
import Firestore.Number.Shortest
import Firestore.Source
import Firestore.Text.Quoted

/-!
# Questions and answers

A reader puts a question to a source and is shown something, which it accepts or
not.  Stored values answer only the question that fits their kind.  Buffered and
foreign data, and JSON text, show what they are, apart from questions to which
any data has an answer: whether it is there, what it wraps, and, for JSON text,
which bytes it holds.  JSON text that no reader can take shows just that.
-/

namespace Firestore

/-- What a reader asks for. -/
inductive Question where
  | any
  | bool
  | integer (t : IntType)
  | number
  | text
  | bytes
  | option
  | unit
  /-- Wrapped data; the reserved names ask for leaves. -/
  | wrapper (m : Option Marker)
  | seq
  | map
  /-- Nothing at all: the data is passed over. -/
  | skip
  deriving DecidableEq, Repr

/-- What a reader is shown. -/
inductive Shown where
  | unit
  | absent
  | present (inner : Source)
  | bool (b : Bool)
  | int (n : Int)
  | word (n : Nat)
  | double (x : Double)
  | text (s : String)
  | bytes (owned : Bool) (bs : List UInt8)
  | wrapper (inner : Source)
  | seq (items : List Source)
  | map (entries : List (Source × Source))
  /-- Data that no reader takes. -/
  | illFormed

/-- How a refusal names what a reader was shown. -/
def Shown.description : Shown → String
  | .unit => "unit value"
  | .absent => "Option value"
  | .present _ => "Option value"
  | .bool b => s!"boolean \x60{b}\x60"
  | .int n => s!"integer \x60{n}\x60"
  | .word n => s!"integer \x60{n}\x60"
  | .double x => s!"floating point \x60{x.pointText}\x60"
  | .text s => s!"string {Text.quoted s}"
  | .bytes _ _ => "byte array"
  | .wrapper _ => "newtype struct"
  | .seq _ => "sequence"
  | .map _ => "map"
  | .illFormed => "ill-formed data"

/-- The refusal of a reader that expected something else. -/
def Shown.mismatch (shown : Shown) (expected : String) : Error :=
  .typeMismatch expected shown.description

namespace Source

/-- What a source is, in the eyes of a reader that asks for nothing special. -/
def shown (format : Format) : Source → Shown
  | .unit => .unit
  | .absent => .absent
  | .present inner => .present inner
  | .bool b => .bool b
  | .int n => .int n.toInt
  | .word n => .word n.toNat
  | .numeral negative magnitude =>
      match ofNumeral negative magnitude with
      | .int n => .int n.toInt
      | .word n => .word n.toNat
      | .double x => .double x
      | _ => .unit
  | .double x => .double x
  | .text s => .text s
  | .literal l =>
      match l.text? with
      | some t => .text t
      | none => .illFormed
  | .bytes owned bs => .bytes owned bs
  | .wrapper inner => .wrapper inner
  | .seq items => .seq items
  | .map entries =>
      if format = .stored ∧ startsReserved entries then
        .map [(.text Marker.literalMap, .map entries)]
      else .map entries
  | .leaf m content => .map [(.text m.name, content)]
  | .beyond _ => .illFormed

/-- The answer of a stored value. -/
def storedAnswer (question : Question) (s : Source) : Except Error Shown :=
  let refuse (expected : String) : Except Error Shown := .error (.typeMismatch expected s.kind)
  match question, s with
  | .any, s => .ok (s.shown .stored)
  | .bool, .bool b => .ok (.bool b)
  | .bool, _ => refuse "a boolean"
  | .integer _, .int n => .ok (.int n.toInt)
  | .integer _, _ => refuse "an integer"
  | .number, .double x => .ok (.double x)
  | .number, .int n => .ok (.double (.ofInt n.toInt))
  | .number, _ => refuse "a number"
  | .text, .text t => .ok (.text t)
  | .text, _ => refuse "a string"
  | .bytes, .bytes owned bs => .ok (.bytes owned bs)
  | .bytes, .seq items => .ok (.seq items)
  | .bytes, _ => refuse "bytes"
  | .option, .unit => .ok .absent
  | .option, s => .ok (.present s)
  | .unit, .unit => .ok .unit
  | .unit, _ => refuse "null"
  | .wrapper none, s => .ok (.wrapper s)
  | .wrapper (some m), .leaf other content =>
      if m = other then .ok (.wrapper content) else refuse m.description
  | .wrapper (some .bytes), .bytes owned bs => .ok (.wrapper (.bytes owned bs))
  | .wrapper (some .reference), .text name => .ok (.wrapper (.text name))
  | .wrapper (some m), _ => refuse m.description
  | .seq, .seq items => .ok (.seq items)
  | .seq, _ => refuse "an array"
  | .map, .map entries => .ok (.map entries)
  | .map, _ => refuse "a map"
  | .skip, _ => .ok .unit

/-- The number that the name of a JSON member spells, character by character. -/
def nameNumber? (name : Json.Literal) : Option Source :=
  match name.plain?.bind Json.Reader.numeral with
  | some (n, []) => some (ofWrittenNumber n)
  | _ => none

/-- The refusal of the name of a JSON member that has to spell a number. -/
def notNumeral : Error := .invalidArgument "invalid value: expected key to be a number in quotes"

/-- The answer of a numeral to a reader of integers.  Those of a wide type are
read digit by digit, without a sign if the type has none. -/
def numeralAnswer (t : IntType) (negative : Bool) (magnitude : Nat) : Except Error Shown :=
  if !t.isWide then .ok (shown .json (.numeral negative magnitude))
  else if !negative then .ok (.word magnitude)
  else if t.signed then .ok (.int (-magnitude))
  else .error (.invalidArgument "number out of range")

/-- What a source shows to a question. -/
def answer (format : Format) (question : Question) (s : Source) : Except Error Shown :=
  match format, question, s with
  | .stored, question, s => storedAnswer question s
  | .foreign, _, s => .ok (s.shown .foreign)
  | .storedName, _, s => .ok (s.shown .storedName)
  | _, .skip, s => if s.canSkip then .ok .unit else .error illFormed
  | .buffered, .option, .unit => .ok .unit
  | .buffered, .option, .absent => .ok .absent
  | .buffered, .option, .present inner => .ok (.present inner)
  | .buffered, .option, s => .ok (.present s)
  | .buffered, .wrapper _, .wrapper inner => .ok (.wrapper inner)
  | .buffered, .wrapper _, s => .ok (.wrapper s)
  | .buffered, _, s => .ok (s.shown .buffered)
  | .json, .integer t, .numeral negative magnitude => numeralAnswer t negative magnitude
  | .json, .bytes, .literal l => .ok (.bytes false l.bytes)
  | .json, .option, .unit => .ok .absent
  | .json, .option, s => .ok (.present s)
  | .json, .wrapper _, s => .ok (.wrapper s)
  | .json, _, s => .ok (s.shown .json)
  | .jsonName, .integer t, .literal name =>
      match nameNumber? name with
      | some (.numeral negative magnitude) => numeralAnswer t negative magnitude
      | some s => .ok (s.shown .json)
      | none => .error notNumeral
  | .jsonName, .option, s => .ok (.present s)
  | .jsonName, .wrapper _, s => .ok (.wrapper s)
  | .jsonName, _, s => .ok (s.shown .json)

end Source

namespace Format

/-- The format of the keys of a format's maps. -/
def keys : Format → Format
  | .stored => .storedName
  | .json => .jsonName
  | format => format

/-- Reads something inside the value that holds `segment`; stored values tell
where a refusal comes from. -/
def locate (format : Format) {α : Type} (segment : String) (r : Except Error α) : Except Error α :=
  if format = .stored then inside segment r else r

/-- The refusal of a reader that got fewer or more items than it asked for. -/
def invalidLength (length : Nat) (expected : String) : Error :=
  .invalidArgument s!"invalid length {length}, expected {expected}"

/-- A number of elements, in words. -/
def elementCount (count : Nat) : String :=
  if count = 1 then "1 element" else s!"{count} elements"

/-- Ends a sequence or a map of which `read` items were read and `left` were not;
only stored and foreign data lets items be left over. -/
def finish (format : Format) (read left : Nat) (collection : String) : Except Error Unit :=
  match format with
  | .stored | .foreign => .ok ()
  | _ =>
      if left = 0 then .ok ()
      else .error (invalidLength (read + left) s!"{elementCount read} in {collection}")

end Format

end Firestore
