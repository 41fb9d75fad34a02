import Firestore.Number.IntType
import Firestore.Reference
import Firestore.Time.Calendar
import Firestore.Value

/-!
# Shapes and the data that has them

A shape says what data a program expects: scalars, options, sequences, maps,
records with named fields, variants with payloads, and the leaves that values
have.  A datum is data that was read as some shape.
-/

namespace Firestore

/-- A key of a map, of one of the types that keys can have. -/
inductive Key where
  | text (s : String)
  | char (c : Char)
  | int (n : Int)
  | symbol (name : String)
  deriving DecidableEq

/-- How a key is written. -/
def Key.written : Key → String
  | .text s => s
  | .char c => c.toString
  | .int n => toString n
  | .symbol name => name

/-- Data of some shape. -/
inductive Datum where
  | unit
  | bool (b : Bool)
  | int (n : Int)
  | single (x : Single)
  | double (x : Double)
  | char (c : Char)
  | text (s : String)
  | bytes (bs : List UInt8)
  | absent
  | present (inner : Datum)
  | seq (items : List Datum)
  /-- A map, in the order of its written keys. -/
  | map (entries : List (Key × Datum))
  /-- A record, in the order of its shape. -/
  | record (fields : List (String × Datum))
  /-- A variant without payload. -/
  | symbol (name : String)
  | variant (name : String) (payload : Datum)
  /-- A leaf, or any value at all. -/
  | value (v : Value)
  | reference (d : DocumentReference)
  | moment (d : DateTime)

namespace Datum

/-- Puts an entry at its place; an old one of the same key is replaced. -/
def insertEntry (entries : List (Key × Datum)) (k : Key) (d : Datum) : List (Key × Datum) :=
  match entries with
  | [] => [(k, d)]
  | (l, e) :: rest =>
      if k.written = l.written then (k, d) :: rest
      else if k.written < l.written then (k, d) :: (l, e) :: rest
      else (l, e) :: insertEntry rest k d

/-- A map of some entries, of which the last one with a key counts. -/
def ofEntries (entries : List (Key × Datum)) : Datum :=
  .map (entries.foldl (fun entries entry => insertEntry entries entry.1 entry.2) [])

end Datum

/-- A field of a record: its name, its shape, and what it is when it is missing. -/
structure Field (α : Type) where
  name : String
  shape : α
  whenMissing : Option Datum := none

/-- What a variant carries. -/
inductive Payload (α : Type) where
  | unit
  | one (shape : α)
  | tuple (shapes : List α)
  | record (fields : List (Field α))

/-- The keys of a map. -/
inductive KeyShape where
  | text
  | char
  | int (t : IntType)
  | symbol (name : String) (names : List String)

/-- What data a program expects.  Named shapes tell their names in refusals. -/
inductive Shape where
  | bool
  | int (t : IntType)
  | single
  | double
  | char
  | text
  | unit
  | unitStruct (name : String)
  | rawBytes
  | option (inner : Shape)
  | list (item : Shape)
  /-- A sequence of fixed length. -/
  | array (length : Nat) (item : Shape)
  | tuple (items : List Shape)
  | tupleStruct (name : String) (items : List Shape)
  /-- A named wrapper, which is not seen in the datum. -/
  | wrapper (name : String) (inner : Shape)
  | map (keys : KeyShape) (content : Shape)
  /-- A record; a `strict` one refuses fields that it does not know. -/
  | record (name : String) (fields : List (Field Shape)) (strict : Bool)
  /-- A record that gathers the fields it does not know under a name of its own. -/
  | openRecord (name : String) (fields : List (Field Shape)) (rest : String)
  | enum (name : String) (variants : List (String × Payload Shape))
  /-- The first of some choices that the data has. -/
  | untagged (name : String) (choices : List (String × Shape))
  | timestamp
  | geoPoint
  | bytes
  | transform
  | reference
  | value
  /-- A calendar moment, stored as a timestamp. -/
  | moment
  | optionalMoment
  /-- The shape that no data has. -/
  | empty

/-- A shape that refers to itself, unfolded to a depth. -/
def Shape.unfold (step : Shape → Shape) : Nat → Shape
  | 0 => .empty
  | depth + 1 => step (Shape.unfold step depth)

end Firestore
