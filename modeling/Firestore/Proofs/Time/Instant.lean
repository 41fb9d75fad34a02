import Firestore.Proofs.Native.Stored
import Firestore.Proofs.Time.Moment
import Firestore.Time.Checked
import Mathlib.Order.Compare

/-!
# The instants of timestamps

Normalizing carries whole seconds out of the nanoseconds and keeps the instant
(`Fits.total_normalized`), unless the seconds run over the ends of their range and stop
there (`seconds_normalized_of_lt` and `seconds_normalized_of_gt`).  On normal timestamps
the order of seconds and nanoseconds is that of the instants (`order_eq_compare_total`),
and no two of them show the same instant (`eq_of_total`).
-/

namespace Firestore.Timestamp

variable {t u : Timestamp} {seconds : Int64} {nanos : Int32}

/-! ## Normal timestamps -/

theorem eq_of_total (ht : t.IsNormal) (hu : u.IsNormal) (h : t.total = u.total) : t = u := by
  unfold IsNormal nanosPerSecond at ht hu
  unfold total nanosPerSecond at h
  have hseconds : t.seconds = u.seconds := Int64.toInt_inj.mp (by omega)
  have hnanos : t.nanos = u.nanos := Int32.toInt_inj.mp (by omega)
  calc t = ⟨t.seconds, t.nanos⟩ := rfl
    _ = ⟨u.seconds, u.nanos⟩ := by rw [hseconds, hnanos]
    _ = u := rfl

/-- Normal timestamps stand in the order of their instants. -/
theorem order_eq_compare_total (ht : t.IsNormal) (hu : u.IsNormal) :
    order t u = compare t.total u.total := by
  unfold IsNormal nanosPerSecond at ht hu
  unfold order total nanosPerSecond
  -- The nanoseconds decide in the same second only; in all other cases they are too few
  -- to bridge the distance between the seconds.
  rcases lt_trichotomy t.seconds.toInt u.seconds.toInt with hlt | heq | hgt
  · have htotal : t.seconds.toInt * 1000000000 + t.nanos.toInt <
        u.seconds.toInt * 1000000000 + u.nanos.toInt := by omega
    rw [compare_lt_iff_lt.mpr hlt, compare_lt_iff_lt.mpr htotal]
    rfl
  · rw [heq, compare_eq_iff_eq.mpr rfl, Ordering.eq_then]
    rcases lt_trichotomy t.nanos.toInt u.nanos.toInt with hlt | heq | hgt
    · rw [compare_lt_iff_lt.mpr hlt, compare_lt_iff_lt.mpr (Int.add_lt_add_left hlt _)]
    · rw [heq, compare_eq_iff_eq.mpr rfl, compare_eq_iff_eq.mpr rfl]
    · rw [compare_gt_iff_gt.mpr hgt, compare_gt_iff_gt.mpr (Int.add_lt_add_left hgt _)]
  · have htotal : u.seconds.toInt * 1000000000 + u.nanos.toInt <
        t.seconds.toInt * 1000000000 + t.nanos.toInt := by omega
    rw [compare_gt_iff_gt.mpr hgt, compare_gt_iff_gt.mpr htotal]
    rfl

/-! ## Normalizing -/

/-- What the nanoseconds lose is what the seconds gain. -/
theorem Fits.total_normalized (h : Fits seconds nanos) :
    (normalized seconds nanos).total = total ⟨seconds, nanos⟩ := by
  unfold total
  rw [h.seconds_normalized, nanos_normalized, Int.add_mul, Int.add_assoc,
    Int.ediv_mul_add_emod]

theorem seconds_normalized_of_lt
    (h : seconds.toInt + nanos.toInt / nanosPerSecond < Int64.minValue.toInt) :
    (normalized seconds nanos).seconds = Int64.minValue :=
  dif_neg (not_le.mpr h)

theorem seconds_normalized_of_gt
    (h : Int64.maxValue.toInt < seconds.toInt + nanos.toInt / nanosPerSecond) :
    (normalized seconds nanos).seconds = Int64.maxValue := by
  have hrange : Int64.minValue.toInt ≤ Int64.maxValue.toInt := by decide
  have hlow : Int64.minValue.toInt ≤ seconds.toInt + nanos.toInt / nanosPerSecond := by omega
  exact (dif_pos hlow).trans (dif_neg (not_le.mpr h))

/-- A normal timestamp is the normal form of every pair that shows its instant. -/
theorem normalized_eq_of_total (ht : t.IsNormal) (h : total ⟨seconds, nanos⟩ = t.total) :
    normalized seconds nanos = t := by
  have hfits : Fits seconds nanos := by
    have hmin : Int64.minValue.toInt = -2 ^ 63 := Int64.toInt_minValue
    have hmax : Int64.maxValue.toInt = 2 ^ 63 - 1 := Int64.toInt_maxValue
    have hlow := t.seconds.le_toInt
    have hhigh := t.seconds.toInt_lt
    unfold IsNormal nanosPerSecond at ht
    simp only [total, nanosPerSecond] at h
    unfold Fits nanosPerSecond
    omega
  exact eq_of_total (isNormal_normalized seconds nanos) ht (hfits.total_normalized.trans h)

/-- The carry and what it leaves of the nanoseconds are words again. -/
theorem normalizedChecked?_eq (seconds : Int64) (nanos : Int32) :
    normalizedChecked? seconds nanos = some (normalized seconds nanos) := by
  have hlow := nanos.le_toInt
  have hhigh := nanos.toInt_lt
  have hcarry : int32? (nanos.toInt / nanosPerSecond) =
      some (.ofInt (nanos.toInt / nanosPerSecond)) := by
    unfold nanosPerSecond
    exact int32?_eq_some (by omega) (by omega)
  have hrest : int32? (nanos.toInt % nanosPerSecond) =
      some (.ofInt (nanos.toInt % nanosPerSecond)) := by
    unfold nanosPerSecond
    exact int32?_eq_some (by omega) (by omega)
  have hback : (Int32.ofInt (nanos.toInt / nanosPerSecond)).toInt =
      nanos.toInt / nanosPerSecond := by
    unfold nanosPerSecond
    exact Int32.toInt_ofInt_of_le (by omega) (by omega)
  rw [normalizedChecked?, hcarry, hrest]
  show some (Timestamp.mk (.ofIntClamp (seconds.toInt + _)) _) = _
  rw [hback]
  rfl

theorem order_normalized {seconds' : Int64} {nanos' : Int32} (h : Fits seconds nanos)
    (h' : Fits seconds' nanos') :
    order (normalized seconds nanos) (normalized seconds' nanos') =
      compare (total ⟨seconds, nanos⟩) (total ⟨seconds', nanos'⟩) := by
  rw [order_eq_compare_total (isNormal_normalized _ _) (isNormal_normalized _ _),
    h.total_normalized, h'.total_normalized]

theorem normalized_inj {seconds' : Int64} {nanos' : Int32} (h : Fits seconds nanos)
    (h' : Fits seconds' nanos') :
    normalized seconds nanos = normalized seconds' nanos' ↔
      total ⟨seconds, nanos⟩ = total ⟨seconds', nanos'⟩ := by
  rw [← h.total_normalized, ← h'.total_normalized]
  constructor
  · exact congrArg total
  · exact eq_of_total (isNormal_normalized _ _) (isNormal_normalized _ _)

/-- **Normalizing is exact up to saturation, and keeps the order of instants.**  No step of
it overflows; the instant stays as long as the seconds with the carry fit their word, and
otherwise they stop at the nearer end.  Pairs that fit are ordered as their instants, and
have the same normal form just if they show the same instant. -/
theorem normalized_exact (seconds : Int64) (nanos : Int32) :
    (normalized seconds nanos).IsNormal ∧
      normalizedChecked? seconds nanos = some (normalized seconds nanos) ∧
      (normalized seconds nanos).nanos.toInt = nanos.toInt % nanosPerSecond ∧
      (Fits seconds nanos → (normalized seconds nanos).total = total ⟨seconds, nanos⟩) ∧
      (seconds.toInt + nanos.toInt / nanosPerSecond < Int64.minValue.toInt →
        (normalized seconds nanos).seconds = Int64.minValue) ∧
      (Int64.maxValue.toInt < seconds.toInt + nanos.toInt / nanosPerSecond →
        (normalized seconds nanos).seconds = Int64.maxValue) ∧
      (normalized seconds nanos).normalize = normalized seconds nanos ∧
      ∀ (seconds' : Int64) (nanos' : Int32), Fits seconds nanos → Fits seconds' nanos' →
        order (normalized seconds nanos) (normalized seconds' nanos') =
            compare (total ⟨seconds, nanos⟩) (total ⟨seconds', nanos'⟩) ∧
          (normalized seconds nanos = normalized seconds' nanos' ↔
            total ⟨seconds, nanos⟩ = total ⟨seconds', nanos'⟩) := by
  have hnormal := isNormal_normalized seconds nanos
  refine ⟨hnormal, normalizedChecked?_eq seconds nanos, nanos_normalized seconds nanos,
    Fits.total_normalized, seconds_normalized_of_lt, seconds_normalized_of_gt,
    normalized_of_isNormal hnormal, ?_⟩
  intro seconds' nanos' hfits hfits'
  exact ⟨order_normalized hfits hfits', normalized_inj hfits hfits'⟩

theorem normalized_exact_ends :
    (normalized 1 1500000000).total = 2500000000 ∧
      (normalized Int64.minValue (-1)).seconds = Int64.minValue ∧
      (normalized Int64.maxValue 1000000000).seconds = Int64.maxValue ∧
      order (normalized 1 1500000000) (normalized 3 (-1)) = .lt ∧
      normalized 1 1500000000 = normalized 2 500000000 := by
  obtain ⟨-, -, -, htotal, -, -, -, hpair⟩ := normalized_exact 1 1500000000
  obtain ⟨-, -, -, -, hfirst, -⟩ := normalized_exact Int64.minValue (-1)
  obtain ⟨-, -, -, -, -, hlast, -⟩ := normalized_exact Int64.maxValue 1000000000
  have horder := (hpair 3 (-1) (by decide) (by decide)).1
  have hequal := (hpair 2 500000000 (by decide) (by decide)).2
  refine ⟨htotal (by decide), hfirst (by decide), hlast (by decide), ?_, ?_⟩
  · exact horder.trans (by decide)
  · exact hequal.mpr (by decide)

end Firestore.Timestamp
