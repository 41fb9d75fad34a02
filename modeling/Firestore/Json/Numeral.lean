import Firestore.Json

/-!
# Numerals of JSON text

A number as it is written: a sign, the digits of the whole part, those after the
point, and an exponent.

A numeral without fraction and exponent stands for an integer of any size.  Any
other is read as a significand of 64 bits and a power of ten: digits that no
longer fit are dropped, those of the whole part raise the power instead.  A
numeral past the largest finite double stands for no number.
-/

namespace Firestore.Json

/-- The exponent of a numeral. -/
structure Exponent where
  negative : Bool
  digits : List Char

/-- A number as it is written. -/
structure Numeral where
  negative : Bool
  whole : List Char
  fraction : List Char
  exponent : Option Exponent

def digitValue (c : Char) : Nat := c.toNat - '0'.toNat

/-- The end of the exponents that are told apart. -/
def topExponent : Nat := Nat.pow 2 31 - 1

/-- The size of an exponent; those past the end are all alike. -/
def Exponent.size (e : Exponent) : Nat :=
  e.digits.foldl (fun n c => min (n * 10 + digitValue c) (topExponent + 1)) 0

namespace Numeral

def isInteger (n : Numeral) : Bool := n.fraction.isEmpty && n.exponent.isNone

/-- The value of the digits before the point. -/
def magnitude (n : Numeral) : Nat :=
  n.whole.foldl (fun n c => n * 10 + digitValue c) 0

/-- The largest significand. -/
def topWord : Nat := Nat.pow 2 64 - 1

/-- Takes digits into a significand as long as they fit; how many were taken. -/
def takeDigits (value taken : Nat) : List Char → Nat × Nat
  | [] => (value, taken)
  | c :: rest =>
      if value * 10 + digitValue c ≤ topWord then
        takeDigits (value * 10 + digitValue c) (taken + 1) rest
      else (value, taken)

/-- The number of a significand, a power of ten and an exponent. -/
def scaled? (negative : Bool) (digits : Nat) (power : Int) (exponent : Option Exponent) :
    Option JsonNumber :=
  let number (power : Int) : Option JsonNumber :=
    (JsonNumber.scaled? digits power).map fun size => .double (.ofRank negative size)
  match exponent with
  | none => number power
  | some e =>
      if topExponent < e.size then
        if digits ≠ 0 ∧ !e.negative then none else some (.double (.ofRank negative 0))
      else number (if e.negative then power - e.size else power + e.size)

/-- The integer of a sign and a magnitude. -/
def integer? (negative : Bool) (magnitude : Nat) : Option JsonNumber :=
  if magnitude ≤ topWord ∨ (JsonNumber.integerDouble? negative magnitude).isSome then
    some (.integer negative magnitude)
  else none

/-- The number that a numeral stands for. -/
def number? (n : Numeral) : Option JsonNumber :=
  if n.isInteger then integer? n.negative n.magnitude
  else
    let (digits, dropped) := JsonNumber.significand n.magnitude
    let (digits, taken) := takeDigits digits 0 n.fraction
    scaled? n.negative digits (dropped - taken) n.exponent

end Numeral

end Firestore.Json
