import Firestore.Number.Rounding

/-!
# Floating-point numbers

A number of a binary format is either no number at all or a sign and a rank.
All the bit patterns that stand for no number count as one, so equality of
values is plain equality here.  Written forms are the usual interchange bits.
-/

namespace Firestore

/-- A number of the format `f`; the sign of zero is kept. -/
inductive Floating (f : BinaryFormat) where
  | nan
  | signed (negative : Bool) (rank : Fin (f.infinity + 1))
  deriving DecidableEq

/-- Double precision, the only kind that is stored. -/
abbrev Double := Floating .double

/-- Single precision. -/
abbrev Single := Floating .single

namespace Floating

variable {f : BinaryFormat}

/-- The number of a sign and a rank, ranks beyond infinity counting as infinity. -/
def ofRank (negative : Bool) (rank : Nat) : Floating f :=
  .signed negative ⟨min rank f.infinity, Nat.lt_succ_of_le (Nat.min_le_right _ _)⟩

/-- The number nearest to a signed quotient. -/
def ofRatio (negative : Bool) (num den : Nat) : Floating f :=
  .ofRank negative (f.rankOfRatio num den)

/-- The number nearest to an integer; zero is positive. -/
def ofInt (n : Int) : Floating f :=
  .ofRatio (n < 0) n.natAbs 1

def zero : Floating f :=
  .ofRank false 0

def infinite (negative : Bool) : Floating f :=
  .ofRank negative f.infinity

/-- The bit above all ranks, which holds the sign. -/
def signBit (f : BinaryFormat) : Nat :=
  (f.binades + 1) * f.binade

/-- The interchange bits of a number. -/
def toBits : Floating f → Nat
  | .nan => f.infinity + f.binade / 2
  | .signed negative rank => (if negative then signBit f else 0) + rank.val

/-- The number written by interchange bits. -/
def ofBits (bits : Nat) : Floating f :=
  let negative := decide (signBit f ≤ bits)
  let rank := if negative then bits - signBit f else bits
  if rank ≤ f.infinity then .ofRank negative rank else .nan

def isNaN : Floating f → Bool
  | .nan => true
  | .signed _ _ => false

/-- The size of a finite number as a quotient. -/
def ratio (rank : Fin (f.infinity + 1)) : Nat × Nat :=
  (f.significand rank.val * Nat.pow 2 (f.shift rank.val), Nat.pow 2 f.lowest)

/-- The nearest number of another format. -/
def convert {g : BinaryFormat} : Floating f → Floating g
  | .nan => .nan
  | .signed negative rank =>
      if rank.val = f.infinity then .infinite negative
      else .ofRatio negative (ratio rank).1 (ratio rank).2

/-- Whether the size of a number is at most that of rank `bound`; never for `nan`. -/
def within (bound : Nat) : Floating f → Bool
  | .nan => false
  | .signed _ rank => rank.val ≤ bound

/-- The nearest number to a product of two sizes. -/
def mulSize (a b : Fin (f.infinity + 1)) : Nat :=
  f.rankOfRatio ((ratio a).1 * (ratio b).1) ((ratio a).2 * (ratio b).2)

/-- The nearest number to a quotient of two sizes. -/
def divSize (a b : Fin (f.infinity + 1)) : Nat :=
  f.rankOfRatio ((ratio a).1 * (ratio b).2) ((ratio a).2 * (ratio b).1)

end Floating

end Firestore
