/-!
# Timestamps

A moment as whole seconds from the start of 1970 and nanoseconds on top of them.
In the normal form the nanoseconds lie in one second; `Timestamp.normalized`
carries the rest into the seconds and stops at the ends of the 64-bit range.
-/

namespace Firestore

/-- Seconds since the start of 1970 and nanoseconds that count forward from there. -/
structure Timestamp where
  seconds : Int64
  nanos : Int32
  deriving DecidableEq

namespace Timestamp

/-- The nanoseconds of one second. -/
def nanosPerSecond : Int := 1000000000

/-- The moment with its nanoseconds carried into the seconds. -/
def normalized (seconds : Int64) (nanos : Int32) : Timestamp :=
  { seconds := .ofIntClamp (seconds.toInt + nanos.toInt / nanosPerSecond)
    nanos := .ofInt (nanos.toInt % nanosPerSecond) }

/-- The normal form of a moment. -/
def normalize (t : Timestamp) : Timestamp := normalized t.seconds t.nanos

/-- Whether the seconds and what the nanoseconds carry into them fit a 64-bit word. -/
def Fits (seconds : Int64) (nanos : Int32) : Prop :=
  Int64.minValue.toInt ≤ seconds.toInt + nanos.toInt / nanosPerSecond ∧
    seconds.toInt + nanos.toInt / nanosPerSecond ≤ Int64.maxValue.toInt

instance (seconds : Int64) (nanos : Int32) : Decidable (Fits seconds nanos) :=
  inferInstanceAs (Decidable (_ ∧ _))

/-- Nanoseconds since the start of 1970. -/
def total (t : Timestamp) : Int := t.seconds.toInt * nanosPerSecond + t.nanos.toInt

/-- Whether the nanoseconds lie inside one second. -/
def IsNormal (t : Timestamp) : Prop := 0 ≤ t.nanos.toInt ∧ t.nanos.toInt < nanosPerSecond

instance (t : Timestamp) : Decidable t.IsNormal :=
  inferInstanceAs (Decidable (_ ∧ _))

/-- Moments are ordered by seconds, then by nanoseconds. -/
def order (t u : Timestamp) : Ordering :=
  (compare t.seconds.toInt u.seconds.toInt).then (compare t.nanos.toInt u.nanos.toInt)

/-- Moments in increasing order, equal ones as they stood. -/
def sort (moments : List Timestamp) : List Timestamp :=
  moments.mergeSort fun t u => (order t u).isLE

end Timestamp

end Firestore
