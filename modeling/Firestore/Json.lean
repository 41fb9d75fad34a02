import Firestore.Fields
import Firestore.Number.Floating

/-!
# JSON values

A JSON value as a document or a request holds it.  Numbers are of two kinds:
integer numerals of any size, whose sign is kept even on zero, and doubles.  An
integer numeral that no 64-bit word holds counts as a double, and so does the
negative zero.

An object is a list of members as they were written; `Json.tidy` orders them by
name and keeps the last one of a name.
-/

namespace Firestore

/-- A JSON number. -/
inductive JsonNumber where
  | integer (negative : Bool) (magnitude : Nat)
  | double (x : Double)
  deriving DecidableEq

/-- A JSON value. -/
inductive Json where
  | null
  | bool (b : Bool)
  | number (n : JsonNumber)
  | string (s : String)
  | array (elements : List Json)
  | object (members : List (String × Json))

namespace JsonNumber

/-- The numeral of an integer. -/
def ofInt (n : Int) : JsonNumber := .integer (n < 0) n.natAbs

/-- The double nearest to a power of ten; its size. -/
def tenPower (k : Nat) : Fin (BinaryFormat.double.infinity + 1) :=
  ⟨BinaryFormat.double.rankOfRatio (Nat.pow 10 k) 1,
    Nat.lt_succ_of_le (BinaryFormat.rankOfRatio_le _ _ _)⟩

/-- A size as a rank of the double format. -/
def sizeOf (rank : Nat) : Fin (BinaryFormat.double.infinity + 1) :=
  ⟨min rank BinaryFormat.double.infinity, Nat.lt_succ_of_le (Nat.min_le_right _ _)⟩

/-- The largest power of ten below the double format's end. -/
def topPower : Nat := 308

/-- Divides a size by `10 ^ power`, by at most `10 ^ 308` at a time. -/
def divideByTens (size : Fin (BinaryFormat.double.infinity + 1)) (power : Nat) :
    Fin (BinaryFormat.double.infinity + 1) :=
  if power ≤ topPower then sizeOf (Floating.divSize size (tenPower power))
  else if size.val = 0 then size
  else divideByTens (sizeOf (Floating.divSize size (tenPower topPower))) (power - topPower)
termination_by power
decreasing_by simp only [topPower] at *; omega

/-- The size of `significand * 10 ^ exponent`: the double nearest to the
significand, multiplied or divided once by the double nearest to the power.
There is none past the largest finite number. -/
def scaled? (significand : Nat) (exponent : Int) : Option Nat :=
  let size := sizeOf (BinaryFormat.double.rankOfRatio significand 1)
  match exponent with
  | .ofNat k =>
      if k ≤ topPower then
        let product := Floating.mulSize size (tenPower k)
        if product = BinaryFormat.double.infinity then none else some product
      else if size.val = 0 then some 0
      else none
  | .negSucc k => some (divideByTens size (k + 1)).val

/-- The digits of a magnitude that fit into a 64-bit significand, and how many
digits follow them. -/
def significand (magnitude : Nat) : Nat × Nat :=
  if magnitude < Nat.pow 2 64 then (magnitude, 0)
  else
    let (digits, dropped) := significand (magnitude / 10)
    (digits, dropped + 1)
termination_by magnitude
decreasing_by simp only [Nat.pow_eq] at *; omega

/-- The double that an integer numeral counts as. -/
def integerDouble? (negative : Bool) (magnitude : Nat) : Option Double :=
  let (digits, dropped) := significand magnitude
  (scaled? digits dropped).map (Floating.ofRank negative)

/-- The 64-bit integer that a number is, signed. -/
def toInt64? : JsonNumber → Option Int64
  | .integer negative magnitude =>
      if negative then
        if 0 < magnitude ∧ magnitude ≤ Nat.pow 2 63 then some (.ofInt (-magnitude)) else none
      else if magnitude < Nat.pow 2 63 then some (.ofInt magnitude)
      else none
  | .double _ => none

/-- The number as a double; words of 64 bits are rounded once. -/
def toDouble : JsonNumber → Double
  | .integer negative magnitude =>
      if magnitude < Nat.pow 2 64 then .ofRatio negative magnitude 1
      else (integerDouble? negative magnitude).getD (.infinite negative)
  | .double x => x

end JsonNumber

namespace Json

def int (n : Int) : Json := .number (.ofInt n)

def nat (n : Nat) : Json := .number (.integer false n)

/-- A double; numbers that JSON cannot write are null. -/
def ofDouble (x : Double) : Json :=
  match x with
  | .nan => .null
  | .signed _ rank => if rank.val = BinaryFormat.double.infinity then .null else .number (.double x)

/-- The member of a name, if the value is an object that has it. -/
def get? : Json → String → Option Json
  | .object members, name => Fields.get? members name
  | _, _ => none

def string? : Json → Option String
  | .string s => some s
  | _ => none

def bool? : Json → Option Bool
  | .bool b => some b
  | _ => none

def members? : Json → Option (List (String × Json))
  | .object members => some members
  | _ => none

def elements? : Json → Option (List Json)
  | .array elements => some elements
  | _ => none

def double? : Json → Option Double
  | .number n => some n.toDouble
  | _ => none

mutual

/-- The value with the members of its objects in order, the last of a name kept. -/
def tidy : Json → Json
  | .array elements => .array (tidyAll elements)
  | .object members => .object (Fields.ofList (tidyMembers members))
  | j => j

/-- The tidy forms of some elements. -/
def tidyAll : List Json → List Json
  | [] => []
  | j :: rest => j.tidy :: tidyAll rest

/-- The tidy forms of some members. -/
def tidyMembers : List (String × Json) → List (String × Json)
  | [] => []
  | (k, j) :: rest => (k, j.tidy) :: tidyMembers rest

end

end Json

end Firestore
