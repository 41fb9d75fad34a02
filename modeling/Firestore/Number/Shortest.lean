import Firestore.Number.Floating

/-!
# The shortest text of a number

A finite number is written with the fewest decimal digits that still read back
as the same number: on the coarsest decimal grid that meets the interval of
reals rounding to it, the nearest point is taken, and of two nearest points the
upper one.  The digits are always laid out positionally, never with an exponent.
-/

namespace Firestore

/-- Decimal digits `digits * 10 ^ exponent`. -/
structure Decimal where
  digits : Nat
  exponent : Int
  deriving DecidableEq, Repr

namespace Decimal

/-- The integer `k` with `10 ^ k ≤ num / den < 10 ^ (k + 1)`, for positive operands. -/
def floorLog10 (num den : Nat) : Int :=
  if den ≤ num then ((Nat.toDigits 10 (num / den)).length : Int) - 1
  else -((Nat.toDigits 10 ((den - 1) / num)).length : Int)

/-- The interval of reals that round to a number, as numerators over `den`. -/
structure Basin where
  low : Nat
  value : Nat
  high : Nat
  den : Nat
  closed : Bool

/-- The basin of rank `r`: half a step to either side, a quarter step below the
first number of a binade. -/
def Basin.ofRank (f : BinaryFormat) (rank : Nat) : Basin :=
  let m := f.significand rank
  let unit := Nat.pow 2 (f.shift rank)
  let below := if m = f.binade ∧ 0 < f.shift rank then 1 else 2
  { low := (4 * m - below) * unit
    value := 4 * m * unit
    high := (4 * m + 2) * unit
    den := 4 * Nat.pow 2 f.lowest
    closed := m % 2 == 0 }

/-- Whether `point * 10 ^ exponent` lies in the basin. -/
def Basin.holds (b : Basin) (point : Nat) (exponent : Int) : Bool :=
  let left := point * Nat.pow 10 exponent.toNat * b.den
  let scale := Nat.pow 10 (-exponent).toNat
  if b.closed then b.low * scale ≤ left && left ≤ b.high * scale
  else b.low * scale < left && left < b.high * scale

/-- The grid point of `10 ^ exponent` nearest to the value among those in the basin. -/
def Basin.nearest? (b : Basin) (exponent : Int) : Option Nat :=
  let num := b.value * Nat.pow 10 (-exponent).toNat
  let den := b.den * Nat.pow 10 exponent.toNat
  let below := num / den
  let upFirst := den ≤ 2 * (num % den)
  match b.holds below exponent, b.holds (below + 1) exponent with
  | true, true => some (if upFirst then below + 1 else below)
  | true, false => some below
  | false, true => some (below + 1)
  | false, false => none

/-- The first grid, from coarse to fine, that meets the basin. -/
def Basin.search (b : Basin) (exponent : Int) : Nat → Decimal
  | 0 => ⟨0, 0⟩
  | fuel + 1 =>
      match b.nearest? exponent with
      | some digits => ⟨digits, exponent⟩
      | none => b.search (exponent - 1) fuel

/-- The shortest decimal that reads back as the number of rank `r`. -/
def shortest (f : BinaryFormat) (rank : Nat) : Decimal :=
  let b := Basin.ofRank f rank
  b.search (floorLog10 b.value b.den + 1) (f.precision + 1)

/-- The positional layout of a decimal. -/
def text (d : Decimal) : String :=
  let digits := Nat.toDigits 10 d.digits
  match d.exponent with
  | .ofNat k => String.ofList (digits ++ List.replicate k '0')
  | .negSucc k =>
      let places := k + 1
      if places < digits.length then
        let whole := digits.length - places
        String.ofList (digits.take whole ++ '.' :: digits.drop whole)
      else
        String.ofList ('0' :: '.' :: (List.replicate (places - digits.length) '0' ++ digits))

end Decimal

namespace Floating

variable {f : BinaryFormat}

/-- The shortest text of a number. -/
def text : Floating f → String
  | .nan => "NaN"
  | .signed negative rank =>
      let size :=
        if rank.val = f.infinity then "inf"
        else if rank.val = 0 then "0"
        else (Decimal.shortest f rank.val).text
      if negative then "-" ++ size else size

/-- The shortest text, whole numbers keeping a decimal place. -/
def pointText (x : Floating f) : String :=
  let s := x.text
  if s.toList.all fun c => c.isDigit || c == '-' then s ++ ".0" else s

end Floating

end Firestore
