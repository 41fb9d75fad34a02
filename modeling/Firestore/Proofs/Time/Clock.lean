import Firestore.Proofs.Time.Instant

/-!
# Clock readings and timestamps

Normal timestamps and clock readings both show each instant once, so a timestamp comes
back from the clock reading of it (`ofClock_toClock`).  Before 1970 the way back negates
the words of the distance.  The one distance that cannot be negated is that of the first
second of all: checked arithmetic stops there (`ofClock_toClock_first`), while words that
wrap around come to the right end.
-/

namespace Firestore

/-! ## Distances -/

namespace EpochDistance

variable {d : EpochDistance} {instant : Int}

/-- Nanoseconds since the start of 1970. -/
def total (d : EpochDistance) : Int :=
  let size : Int := d.seconds * 1000000000 + d.nanos
  if d.before then -size else size

theorem total_eq (hbefore : d.before = decide (instant < 0))
    (hsize : d.seconds * 1000000000 + d.nanos = instant.natAbs) : d.total = instant := by
  unfold total
  simp only [hbefore, decide_eq_true_eq]
  split
  · omega
  · omega

end EpochDistance

namespace ClockReading

theorem ofDistance?_eq (d : EpochDistance) : ofDistance? d = ofNanos? d.total := rfl

theorem total_distance (r : ClockReading) : r.distance.total = r.total := by
  apply EpochDistance.total_eq
  · rfl
  · show r.total.natAbs / 1000000000 * 1000000000 + r.total.natAbs % 1000000000 = r.total.natAbs
    omega

/-- An instant whose second fits a 64-bit word has a clock reading. -/
theorem exists_ofNanos? {instant : Int} (hlow : -2 ^ 63 ≤ instant / 1000000000)
    (hhigh : instant / 1000000000 < 2 ^ 63) :
    ∃ r, ofNanos? instant = some r ∧ r.total = instant := by
  have hmin : Int64.minValue.toInt = -2 ^ 63 := Int64.toInt_minValue
  have hmax : Int64.maxValue.toInt = 2 ^ 63 - 1 := Int64.toInt_maxValue
  have hrange : Int64.minValue.toInt ≤ instant / 1000000000 ∧
      instant / 1000000000 ≤ Int64.maxValue.toInt := by omega
  refine ⟨_, if_pos hrange, ?_⟩
  show (Int64.ofInt (instant / 1000000000)).toInt * 1000000000 +
    ((instant % 1000000000).toNat : Nat) = instant
  rw [Int64.toInt_ofInt_of_le hlow hhigh]
  omega

end ClockReading

namespace Timestamp

variable {t : Timestamp}

/-! ## Timestamps on a clock -/

/-- The second of a normal timestamp is that of its instant. -/
theorem total_ediv (ht : t.IsNormal) : t.total / 1000000000 = t.seconds.toInt := by
  unfold IsNormal nanosPerSecond at ht
  unfold total nanosPerSecond
  omega

/-- A clock can hold every normal timestamp, and shows the instant of it. -/
theorem exists_ofNanos?_total (ht : t.IsNormal) :
    ∃ r, ClockReading.ofNanos? t.total = some r ∧ r.total = t.total := by
  apply ClockReading.exists_ofNanos?
  · rw [total_ediv ht]
    exact t.seconds.le_toInt
  · rw [total_ediv ht]
    exact t.seconds.toInt_lt

theorem toClock?_eq (ht : t.IsNormal) : toClock? t = ClockReading.ofNanos? t.total := by
  unfold IsNormal nanosPerSecond at ht
  have hword : ((Nat.pow 2 64 : Nat) : Int) = 2 ^ 64 := rfl
  have hnanos : t.nanos.toInt % (Nat.pow 2 64 : Nat) = t.nanos.toInt := by
    rw [hword]
    exact Int.emod_eq_of_lt ht.1 (by omega)
  rw [toClock?, hnanos]
  rfl

/-- In steps, a clock goes to the whole second first, which it can hold as well. -/
theorem toClockChecked?_eq (ht : t.IsNormal) :
    toClockChecked? t = ClockReading.ofNanos? t.total := by
  have hwhole : EpochDistance.total ⟨t.seconds.toInt < 0, t.seconds.toInt.natAbs, 0⟩ =
      total ⟨t.seconds, 0⟩ := by
    apply EpochDistance.total_eq
    · refine decide_eq_decide.mpr ?_
      show t.seconds.toInt < 0 ↔ t.seconds.toInt * 1000000000 + 0 < 0
      omega
    · show t.seconds.toInt.natAbs * 1000000000 + 0 = (t.seconds.toInt * 1000000000 + 0).natAbs
      omega
  obtain ⟨whole, hread, htotal⟩ := exists_ofNanos?_total (isNormal_whole t.seconds)
  rw [toClockChecked?, ClockReading.ofDistance?_eq, hwhole, hread]
  show (if t.nanos.toInt < 0 then none else ClockReading.ofNanos? (whole.total + t.nanos.toInt)) = _
  have hinstant : whole.total + t.nanos.toInt = t.total := by
    rw [htotal]
    show t.seconds.toInt * 1000000000 + 0 + t.nanos.toInt = _
    rw [Int.add_zero]
    rfl
  rw [if_neg (not_lt.mpr ht.1), hinstant]

/-! ## Distances as timestamps -/

theorem neg_ofNat64 (n : Nat) : -Int64.ofNat n = Int64.ofInt (-n) := by
  rw [Int64.ofInt_neg, Int64.ofInt_eq_ofNat]

theorem neg_ofNat32 (n : Nat) : -Int32.ofNat n = Int32.ofInt (-n) := by
  rw [Int32.ofInt_neg, Int32.ofInt_eq_ofNat]

/-- A normal timestamp is the normal form of all words that show its instant. -/
theorem normalized_ofInt (ht : t.IsNormal) {seconds nanos : Int}
    (hseconds : -2 ^ 63 ≤ seconds ∧ seconds < 2 ^ 63) (hnanos : -2 ^ 31 ≤ nanos ∧ nanos < 2 ^ 31)
    (htotal : seconds * 1000000000 + nanos = t.total) :
    normalized (.ofInt seconds) (.ofInt nanos) = t := by
  apply normalized_eq_of_total ht
  show (Int64.ofInt seconds).toInt * 1000000000 + (Int32.ofInt nanos).toInt = t.total
  rw [Int64.toInt_ofInt_of_le hseconds.1 hseconds.2, Int32.toInt_ofInt_of_le hnanos.1 hnanos.2,
    htotal]

/-- Distances of less than `2 ^ 63` seconds are distances of timestamps, and no step of the way
overflows. -/
theorem ofDistance_eq (ht : t.IsNormal) {d : EpochDistance} (hseconds : d.seconds < 2 ^ 63)
    (hnanos : d.nanos < 2 ^ 31) (htotal : d.total = t.total) :
    ofDistance d = t ∧ ofDistanceChecked? d = some t := by
  have hsecondsWord : int64? d.seconds = some (.ofInt d.seconds) :=
    int64?_eq_some (by omega) (by omega)
  have hnanosWord : int32? d.nanos = some (.ofInt d.nanos) :=
    int32?_eq_some (by omega) (by omega)
  simp only [EpochDistance.total] at htotal
  rw [ofDistance, ofDistanceChecked?, hsecondsWord, hnanosWord]
  -- before 1970 both words are negated, and their negatives fit as well
  cases hside : d.before with
  | true =>
      simp only [hside, if_true] at htotal
      have hback := @normalized_ofInt t ht (-d.seconds) (-d.nanos) (by omega)
        (by omega) (by omega)
      have hsecondsNeg : int64? (-(Int64.ofInt d.seconds).toInt) = some (.ofInt (-d.seconds)) := by
        rw [Int64.toInt_ofInt_of_le (by omega) (by omega)]
        exact int64?_eq_some (by omega) (by omega)
      have hnanosNeg : int32? (-(Int32.ofInt d.nanos).toInt) = some (.ofInt (-d.nanos)) := by
        rw [Int32.toInt_ofInt_of_le (by omega) (by omega)]
        exact int32?_eq_some (by omega) (by omega)
      simp only [Option.bind_eq_bind, Option.bind_some, if_true, hsecondsNeg, hnanosNeg,
        normalizedChecked?_eq, neg_ofNat64, neg_ofNat32, hback, and_self]
  | false =>
      simp only [hside, if_false, Bool.false_eq_true] at htotal
      have hback := @normalized_ofInt t ht d.seconds d.nanos (by omega)
        (by omega) htotal
      simp only [Option.bind_eq_bind, Option.bind_some, if_false, Bool.false_eq_true,
        normalizedChecked?_eq, ← Int64.ofInt_eq_ofNat, ← Int32.ofInt_eq_ofNat, hback, and_self]

/-! ## The first second -/

/-- The earliest moment with nothing on top of its second. -/
def first : Timestamp := ⟨Int64.minValue, 0⟩

theorem total_first : first.total = -2 ^ 63 * 1000000000 := by decide

/-- Only the first second of all is as far as `2 ^ 63` seconds from the start of 1970. -/
theorem seconds_distance_lt (ht : t.IsNormal) (hfirst : t ≠ first) {r : ClockReading}
    (htotal : r.total = t.total) : r.distance.seconds < 2 ^ 63 := by
  have hother : t.total ≠ -2 ^ 63 * 1000000000 := by
    rw [← total_first]
    exact fun h => hfirst (eq_of_total ht (by decide) h)
  have hlow := t.seconds.le_toInt
  have hhigh := t.seconds.toInt_lt
  have hsecond := total_ediv ht
  show r.total.natAbs / 1000000000 < 2 ^ 63
  rw [htotal]
  omega

/-- **A timestamp comes back from its clock reading.**  A clock can hold every normal
timestamp.  No step to the reading overflows, and no step back does, unless the timestamp is
the first second of all. -/
theorem ofClock_toClock (ht : t.IsNormal) :
    ∃ r, toClock? t = some r ∧ toClockChecked? t = some r ∧ ofClock r = t ∧
      (ofClockChecked? r = some t ↔ t ≠ first) := by
  obtain ⟨r, hread, htotal⟩ := exists_ofNanos?_total ht
  refine ⟨r, (toClock?_eq ht).trans hread, (toClockChecked?_eq ht).trans hread, ?_⟩
  -- the first second is a closed case; any other is less than `2 ^ 63` seconds away
  by_cases hfirst : t = first
  · subst hfirst
    have hdistance : r.distance = ⟨true, 2 ^ 63, 0⟩ := by
      rw [ClockReading.distance, htotal]
      decide
    rw [ofClock, ofClockChecked?, hdistance]
    decide
  · have hnanos : r.distance.nanos < 2 ^ 31 := by
      show r.total.natAbs % 1000000000 < 2 ^ 31
      omega
    obtain ⟨hback, hchecked⟩ := ofDistance_eq ht (seconds_distance_lt ht hfirst htotal) hnanos
      (r.total_distance.trans htotal)
    exact ⟨hback, iff_of_true hchecked hfirst⟩

theorem ofClock_toClock_before :
    ∃ r, toClock? ⟨-3, 400⟩ = some r ∧ toClockChecked? ⟨-3, 400⟩ = some r ∧
      ofClock r = ⟨-3, 400⟩ ∧ ofClockChecked? r = some ⟨-3, 400⟩ := by
  obtain ⟨r, hread, hsteps, hback, hchecked⟩ := ofClock_toClock (t := ⟨-3, 400⟩) (by decide)
  exact ⟨r, hread, hsteps, hback, hchecked.mpr (by decide)⟩

/-- The way back from the first second negates a word that has no negative: the moment comes
out right, as the word wraps around, but the exact result of the step does not fit. -/
theorem ofClock_toClock_first :
    ∃ r, first.IsNormal ∧ toClock? first = some r ∧ ofClock r = first ∧
      r.distance = ⟨true, 2 ^ 63, 0⟩ ∧ int64? (-(Int64.ofNat (2 ^ 63)).toInt) = none ∧
      ofClockChecked? r = none := by
  refine ⟨⟨Int64.minValue, 0, by decide⟩, ?_⟩
  decide

end Timestamp

end Firestore
