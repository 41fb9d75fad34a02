import Firestore.Time.Timestamp

/-!
# Readings of a system clock

A clock holds whole seconds in 64 bits and a part of a second in nanoseconds.
Programs see a reading as its distance from the start of 1970, before or after
it, and timestamps are made from that distance.
-/

namespace Firestore

/-- A reading of the system clock; the nanoseconds count forward. -/
structure ClockReading where
  seconds : Int64
  nanos : Nat
  nanos_lt : nanos < 1000000000
  deriving DecidableEq

/-- A time span to one side of the start of 1970. -/
structure EpochDistance where
  before : Bool
  seconds : Nat
  nanos : Nat
  deriving DecidableEq, Repr

namespace ClockReading

/-- The reading `total` nanoseconds after the start of 1970, if a clock can hold it. -/
def ofNanos? (total : Int) : Option ClockReading :=
  let seconds := total / 1000000000
  let nanos := (total % 1000000000).toNat
  if Int64.minValue.toInt ≤ seconds ∧ seconds ≤ Int64.maxValue.toInt then
    some ⟨.ofInt seconds, nanos, by omega⟩
  else none

/-- Nanoseconds since the start of 1970. -/
def total (r : ClockReading) : Int :=
  r.seconds.toInt * 1000000000 + r.nanos

/-- How far a reading is from the start of 1970. -/
def distance (r : ClockReading) : EpochDistance :=
  let size := r.total.natAbs
  ⟨r.total < 0, size / 1000000000, size % 1000000000⟩

/-- The reading at a distance from the start of 1970, if a clock can hold it. -/
def ofDistance? (d : EpochDistance) : Option ClockReading :=
  let size : Int := d.seconds * 1000000000 + d.nanos
  ofNanos? (if d.before then -size else size)

end ClockReading

namespace Timestamp

/-- The moment at a distance from the start of 1970; seconds are 64-bit words. -/
def ofDistance (d : EpochDistance) : Timestamp :=
  let seconds := Int64.ofNat d.seconds
  let nanos := Int32.ofNat d.nanos
  if d.before then normalized (-seconds) (-nanos) else normalized seconds nanos

/-- The moment that a clock shows. -/
def ofClock (r : ClockReading) : Timestamp := ofDistance r.distance

/-- The clock reading of a moment, if a clock can hold it.  Negative nanoseconds
count as the 64-bit word of the same bits. -/
def toClock? (t : Timestamp) : Option ClockReading :=
  ClockReading.ofNanos? (t.seconds.toInt * 1000000000 + t.nanos.toInt % (Nat.pow 2 64 : Nat))

end Timestamp

end Firestore
