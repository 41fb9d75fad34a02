/-!
# Rounding to a binary format

A binary format has significands of `precision` digits and a smallest positive
number `2 ^ -lowest`.  Its nonnegative numbers are counted upwards from zero:
the number of rank `r` is the `r`-th after zero, and the rank of infinity comes
after that of the largest finite number.  The rank read in base two is also the
written form of the number, without its sign.

`rankOfRatio` rounds a quotient of natural numbers to the nearest rank; of two
nearest ones it takes the even one.
-/

namespace Firestore

/-- A binary floating-point format: the digits of a significand, the negated
exponent of the smallest positive number, and how many binades lie below infinity. -/
structure BinaryFormat where
  precision : Nat
  lowest : Nat
  binades : Nat

namespace BinaryFormat

/-- Sixty-four bits: 53 digits, down to `2 ^ -1074`. -/
def double : BinaryFormat := ⟨53, 1074, 2047⟩

/-- Thirty-two bits: 24 digits, down to `2 ^ -149`. -/
def single : BinaryFormat := ⟨24, 149, 255⟩

/-- How many ranks one binade holds. -/
def binade (f : BinaryFormat) : Nat :=
  Nat.pow 2 (f.precision - 1)

/-- The rank of infinity. -/
def infinity (f : BinaryFormat) : Nat :=
  f.binades * f.binade

/-- How far the step of rank `r` is above the smallest one, as a power of two. -/
def shift (f : BinaryFormat) (rank : Nat) : Nat :=
  rank / f.binade - 1

/-- The significand of rank `r`: the number is `significand * 2 ^ (shift - lowest)`. -/
def significand (f : BinaryFormat) (rank : Nat) : Nat :=
  rank - f.shift rank * f.binade

end BinaryFormat

/-- The quotient of two natural numbers, rounded to the nearest one, ties to even. -/
def roundHalfEven (num den : Nat) : Nat :=
  let floor := num / den
  let rest := num % den
  if 2 * rest < den then floor
  else if den < 2 * rest then floor + 1
  else floor + floor % 2

/-- The integer `k` with `2 ^ k ≤ num / den < 2 ^ (k + 1)`, for positive operands. -/
def floorLog2 (num den : Nat) : Int :=
  let k : Int := (num.log2 : Int) - den.log2
  if den * Nat.pow 2 k.toNat ≤ num * Nat.pow 2 (-k).toNat then k else k - 1

/-- The rank nearest to `num / den`, ties to even; what lies beyond the finite
numbers goes to infinity. -/
def BinaryFormat.rankOfRatio (f : BinaryFormat) (num den : Nat) : Nat :=
  if num = 0 then 0
  else
    let step := max (floorLog2 num den - (f.precision - 1 : Nat)) (-(f.lowest : Int))
    let digits := roundHalfEven (num * Nat.pow 2 (-step).toNat) (den * Nat.pow 2 step.toNat)
    min f.infinity ((step + f.lowest).toNat * f.binade + digits)

theorem BinaryFormat.rankOfRatio_le (f : BinaryFormat) (num den : Nat) :
    f.rankOfRatio num den ≤ f.infinity := by
  unfold BinaryFormat.rankOfRatio
  split
  · exact Nat.zero_le _
  · exact Nat.min_le_left _ _

end Firestore
