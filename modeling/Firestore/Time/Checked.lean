import Firestore.Native.Encoding
import Firestore.Time.Clock

/-!
# Times in arithmetic that may not overflow

Machine words wrap where an exact result does not fit them, or a program that checks its
arithmetic stops there.  The functions here are those of timestamps and clock readings in
the second manner: they go step by step, and give nothing as soon as the exact result of
a step does not fit the word that is to hold it.
-/

namespace Firestore.Timestamp

/-- `normalized` in steps.  The last one, the sum of the seconds, saturates and so never
overflows. -/
def normalizedChecked? (seconds : Int64) (nanos : Int32) : Option Timestamp := do
  let carry ← int32? (nanos.toInt / nanosPerSecond)
  let rest ← int32? (nanos.toInt % nanosPerSecond)
  return ⟨.ofIntClamp (seconds.toInt + carry.toInt), rest⟩

/-- `ofDistance` in steps: both parts become words, which are negated before 1970. -/
def ofDistanceChecked? (d : EpochDistance) : Option Timestamp := do
  let seconds ← int64? d.seconds
  let nanos ← int32? d.nanos
  if d.before then
    let seconds ← int64? (-seconds.toInt)
    let nanos ← int32? (-nanos.toInt)
    normalizedChecked? seconds nanos
  else normalizedChecked? seconds nanos

/-- `ofClock` in steps. -/
def ofClockChecked? (r : ClockReading) : Option Timestamp := ofDistanceChecked? r.distance

/-- `toClock?` in steps: the whole seconds to one side of the start of 1970, and from there on
the nanoseconds, which have to be a size. -/
def toClockChecked? (t : Timestamp) : Option ClockReading := do
  let whole ← ClockReading.ofDistance? ⟨t.seconds.toInt < 0, t.seconds.toInt.natAbs, 0⟩
  if t.nanos.toInt < 0 then none else ClockReading.ofNanos? (whole.total + t.nanos.toInt)

end Firestore.Timestamp
