import Firestore.Proofs.Value.Normal
import Firestore.Time.Calendar
import Mathlib.Algebra.Group.Int.Defs
import Mathlib.Algebra.Group.Nat.Defs

/-!
# Calendar moments as timestamps

The seconds of the calendar fit a 64-bit word, so the timestamp of a moment has the
seconds of that moment, or the next one for a leap second (`parts_ofDateTime`).  A moment
of whole seconds is the moment of its timestamp.
-/

namespace Firestore

namespace Timestamp

theorem nanos_normalized (seconds : Int64) (nanos : Int32) :
    (normalized seconds nanos).nanos.toInt = nanos.toInt % nanosPerSecond := by
  have hlow : 0 ≤ nanos.toInt % nanosPerSecond := Int.emod_nonneg _ (by decide)
  have hhigh : nanos.toInt % nanosPerSecond < nanosPerSecond := Int.emod_lt_of_pos _ (by decide)
  unfold nanosPerSecond at hlow hhigh
  apply Int32.toInt_ofInt_of_le
  · unfold nanosPerSecond
    omega
  · unfold nanosPerSecond
    omega

theorem isNormal_normalized (seconds : Int64) (nanos : Int32) :
    (normalized seconds nanos).IsNormal := by
  rw [IsNormal, nanos_normalized]
  exact ⟨Int.emod_nonneg _ (by decide), Int.emod_lt_of_pos _ (by decide)⟩

/-- Seconds with the carry are those of the normal form if they fit. -/
theorem Fits.seconds_normalized {seconds : Int64} {nanos : Int32} (h : Fits seconds nanos) :
    (normalized seconds nanos).seconds.toInt = seconds.toInt + nanos.toInt / nanosPerSecond :=
  Int64.toInt_ofIntClamp h.1 h.2

/-- Seconds away from the ends of their range have room for the carry. -/
theorem fits_of_bounds {seconds : Int64} {nanos : Int32} (hlow : -2 ^ 62 ≤ seconds.toInt)
    (hhigh : seconds.toInt < 2 ^ 62) : Fits seconds nanos := by
  have hfirst : Int64.minValue.toInt = -2 ^ 63 := by decide
  have hlast : Int64.maxValue.toInt = 2 ^ 63 - 1 := by decide
  have hnanosLow : -2 ^ 31 ≤ nanos.toInt := Int32.le_toInt nanos
  have hnanosHigh : nanos.toInt < 2 ^ 31 := Int32.toInt_lt nanos
  unfold Fits nanosPerSecond
  omega

end Timestamp

namespace DateTime

theorem firstSecond_eq : firstSecond = -8334601228800 := by decide

theorem lastSecond_eq : lastSecond = 8210266876799 := by decide

/-- The seconds of the calendar fit a 64-bit word, with room to spare. -/
theorem seconds_of_make? {seconds nanos : Int} {d : DateTime} (h : make? seconds nanos = some d) :
    -2 ^ 62 ≤ d.seconds ∧ d.seconds < 2 ^ 62 := by
  unfold make? at h
  split at h
  · rename_i hrange
    cases h
    rw [firstSecond_eq, lastSecond_eq] at hrange
    show -2 ^ 62 ≤ seconds ∧ seconds < 2 ^ 62
    omega
  · cases h

end DateTime

namespace Timestamp

theorem isNormal_whole (seconds : Int64) : IsNormal ⟨seconds, 0⟩ := by
  show 0 ≤ (0 : Int32).toInt ∧ (0 : Int32).toInt < nanosPerSecond
  decide

theorem normalized_whole (seconds : Int64) : normalized seconds 0 = ⟨seconds, 0⟩ := by
  have hself := normalized_of_isNormal (isNormal_whole seconds)
  exact hself

/-- A moment of whole seconds is the moment of its timestamp. -/
theorem toDateTime?_ofDateTimeSeconds {d : DateTime}
    (hcalendar : DateTime.make? d.seconds d.nanos = some d) (hwhole : d.nanos = 0) :
    (ofDateTimeSeconds d).toDateTime? = some d := by
  obtain ⟨hlow, hhigh⟩ := DateTime.seconds_of_make? hcalendar
  have hseconds : (Int64.ofInt d.seconds).toInt = d.seconds := by
    apply Int64.toInt_ofInt_of_le
    · omega
    · omega
  have hnanos : ((0 : Int32).toInt : Int) = d.nanos := by
    rw [hwhole]
    rfl
  rw [ofDateTimeSeconds, normalized_whole, toDateTime?]
  show DateTime.make? (Int64.ofInt d.seconds).toInt (0 : Int32).toInt = some d
  rw [hseconds, hnanos, hcalendar]

/-- The timestamp of a moment carries a leap second into the second after it. -/
theorem parts_ofDateTime {d : DateTime} (hlow : -2 ^ 62 ≤ d.seconds) (hhigh : d.seconds < 2 ^ 62)
    (hnanos : d.nanos < 2 ^ 31) :
    (ofDateTime d).seconds.toInt = d.seconds + d.nanos / nanosPerSecond ∧
      (ofDateTime d).nanos.toInt = d.nanos % nanosPerSecond := by
  have hseconds : (Int64.ofInt d.seconds).toInt = d.seconds :=
    Int64.toInt_ofInt_of_le (by omega) (by omega)
  have hinSecond : (Int32.ofNat d.nanos).toInt = d.nanos := by
    rw [← Int32.ofInt_eq_ofNat]
    exact Int32.toInt_ofInt_of_le (by omega) (by omega)
  have hfits : Fits (.ofInt d.seconds) (.ofNat d.nanos) :=
    fits_of_bounds (by rwa [hseconds]) (by rwa [hseconds])
  rw [ofDateTime, nanos_normalized, hfits.seconds_normalized, hseconds, hinSecond]
  exact ⟨rfl, rfl⟩

/-- A normal timestamp is the timestamp of its moment. -/
theorem ofDateTime_toDateTime? {t : Timestamp} (hnormal : t.IsNormal) {d : DateTime}
    (h : t.toDateTime? = some d) : ofDateTime d = t := by
  unfold toDateTime? DateTime.make? at h
  split at h
  · cases h
    have hnanos : Int32.ofNat t.nanos.toInt.toNat = t.nanos := by
      rw [← Int32.ofInt_eq_ofNat, Int.toNat_of_nonneg hnormal.1, Int32.ofInt_toInt]
    show normalized (.ofInt t.seconds.toInt) (.ofNat t.nanos.toInt.toNat) = t
    rw [hnanos, Int64.ofInt_toInt, normalized_of_isNormal hnormal]
  · cases h

/-- The moment of a normal timestamp is at its second. -/
theorem moment_of_toDateTime? {t : Timestamp} (hnormal : t.IsNormal) {d : DateTime}
    (h : t.toDateTime? = some d) :
    d.seconds = t.seconds.toInt ∧ DateTime.make? d.seconds d.nanos = some d := by
  have hmake := h
  unfold toDateTime? DateTime.make? at h
  split at h
  · cases h
    have hnanos : ((t.nanos.toInt.toNat : Nat) : Int) = t.nanos.toInt :=
      Int.toNat_of_nonneg hnormal.1
    refine ⟨rfl, ?_⟩
    show DateTime.make? t.seconds.toInt (t.nanos.toInt.toNat : Nat) = _
    rw [hnanos]
    exact hmake
  · contradiction

end Timestamp

end Firestore
