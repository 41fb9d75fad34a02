import Firestore.Text.Bytes
import Firestore.Time.Calendar

/-!
# Times of day as RFC 3339 texts

A text such as `2024-01-01T00:00:00.5Z`: a date, a time of day with an optional
fraction, and an offset from universal time.  A text without room for a date and a
time to the second is too short, whatever it holds.  Otherwise the reader goes
from left to right and stops at the first thing that is wrong; the date is looked
up in the calendar before the time is read, the time is checked when its fraction
has been read, and the size of the offset when the whole text has been used.  A
sixtieth second is a leap second.

The writer gives nine places of the second and universal time.
-/

namespace Firestore.Rfc3339

/-- Why a text is not a time. -/
inductive Fault where
  | invalid
  | outOfRange
  | tooShort
  | tooLong
  deriving DecidableEq, Repr

def Fault.message : Fault → String
  | .invalid => "input contains invalid characters"
  | .outOfRange => "input is out of range"
  | .tooShort => "premature end of input"
  | .tooLong => "trailing input"

/-! ## Reading -/

/-- A step of reading, which takes bytes from the front of what is left. -/
abbrev Scan := StateT (List UInt8) (Except Fault)

/-- The value of a decimal digit, given by its byte. -/
def digit? (b : UInt8) : Option Nat :=
  if 48 ≤ b.toNat ∧ b.toNat ≤ 57 then some (b.toNat - 48) else none

/-- The next byte. -/
def next : Scan UInt8 := do
  match ← get with
  | [] => throw .tooShort
  | b :: rest => set rest; return b

/-- The next byte, which has to be a decimal digit. -/
def digit : Scan Nat := do
  match digit? (← next) with
  | some d => return d
  | none => throw .invalid

/-- A number of exactly `width` more digits, `value` being read already. -/
def digits (value : Nat) : Nat → Scan Nat
  | 0 => return value
  | width + 1 => do digits (value * 10 + (← digit)) width

/-- One of some given characters. -/
def oneOf (cs : List Char) : Scan Unit := do
  let b ← next
  unless cs.any fun c => c.toNat == b.toNat do
    throw .invalid

/-- Up to `places` more digits of a fraction, in units of its last place. -/
def fractionDigits (value : Nat) : Nat → List UInt8 → Nat × List UInt8
  | 0, bs => (value, bs)
  | places + 1, [] => (value * Nat.pow 10 (places + 1), [])
  | places + 1, b :: bs =>
      match digit? b with
      | some d => fractionDigits (value * 10 + d) places bs
      | none => (value * Nat.pow 10 (places + 1), b :: bs)

/-- The nanoseconds of an optional fraction, which has a digit at least; digits
past the ninth are skipped. -/
def fraction : Scan Nat := do
  match ← get with
  | [] => return 0
  | b :: bs =>
      if b.toNat ≠ '.'.toNat then return 0
      set bs
      let _ ← digit
      let (nanos, rest) := fractionDigits 0 9 bs
      set (rest.dropWhile fun c => (digit? c).isSome)
      return nanos

/-- Two digits of an offset, which are looked at together. -/
def offsetPart : Scan Nat := do
  if (← get).length < 2 then throw .tooShort
  digits 0 2

/-- Hours and minutes of an offset, in seconds. -/
def offsetSize : Scan Int := do
  let hours ← offsetPart
  oneOf [':']
  let minutes ← offsetPart
  if minutes < 60 then return hours * 3600 + minutes * 60 else throw .outOfRange

/-- An offset from universal time, in seconds.  The minus sign may also be the
mathematical one, of three bytes. -/
def offset : Scan Int := do
  match ← get with
  | 0xE2 :: 0x88 :: 0x92 :: rest => set rest; return -(← offsetSize)
  | _ =>
      let b ← next
      if b.toNat = 'Z'.toNat ∨ b.toNat = 'z'.toNat then return 0
      else if b.toNat = '+'.toNat then offsetSize
      else if b.toNat = '-'.toNat then return -(← offsetSize)
      else throw .invalid

/-- A date that the calendar has. -/
def date : Scan Date := do
  let year ← digits 0 4
  oneOf ['-']
  let month ← digits 0 2
  oneOf ['-']
  let day ← digits 0 2
  let date : Date := ⟨year, month, day⟩
  if date.isValid then return date else throw .outOfRange

/-- A time of day: its seconds, and the nanoseconds on top of them. -/
def timeOfDay : Scan (Nat × Nat) := do
  let hour ← digits 0 2
  oneOf [':']
  let minute ← digits 0 2
  oneOf [':']
  let second ← digits 0 2
  let nanos ← fraction
  unless hour < 24 ∧ minute < 60 ∧ second ≤ 60 do
    throw .outOfRange
  let start := hour * 3600 + minute * 60
  return if second = 60 then (start + 59, nanos + 1000000000) else (start + second, nanos)

/-- The bytes of a date and a time to the second. -/
def shortest : Nat := 19

/-- The parts of a text, from left to right. -/
def moment : Scan (Date × (Nat × Nat) × Int) := do
  if (← get).length < shortest then throw .tooShort
  let date ← date
  oneOf ['T', 't', ' ']
  let time ← timeOfDay
  let shift ← offset
  return (date, time, shift)

/-- The moment that a text stands for. -/
def read (s : String) : Except Fault DateTime := do
  let ((date, (inDay, nanos), shift), rest) ← moment.run (Text.bytes s)
  unless rest.isEmpty do
    throw .tooLong
  unless shift.natAbs < 24 * 3600 do
    throw .outOfRange
  return ⟨date.toDays * DateTime.secondsPerDay + inDay - shift, nanos⟩

/-! ## Writing -/

/-- A number in decimal, filled up with zeros to a width. -/
def padded (width n : Nat) : String :=
  let digits := Nat.toDigits 10 n
  String.ofList (List.replicate (width - digits.length) '0' ++ digits)

/-- Years outside four digits carry a sign. -/
def yearText (year : Int) : String :=
  if 0 ≤ year ∧ year ≤ 9999 then padded 4 year.toNat
  else (if year < 0 then "-" else "+") ++ padded 4 year.natAbs

/-- The text of a moment; a leap second is the sixtieth. -/
def write (d : DateTime) : String :=
  let date := Date.ofDays (d.seconds / DateTime.secondsPerDay)
  let inDay := (d.seconds % DateTime.secondsPerDay).toNat
  let leap := decide (1000000000 ≤ d.nanos)
  let second := if leap then inDay % 60 + 1 else inDay % 60
  let nanos := if leap then d.nanos - 1000000000 else d.nanos
  s!"{yearText date.year}-{padded 2 date.month}-{padded 2 date.day}" ++
    s!"T{padded 2 (inDay / 3600)}:{padded 2 (inDay / 60 % 60)}:{padded 2 second}" ++
    s!".{padded 9 nanos}Z"

end Firestore.Rfc3339
