import Firestore.GeoPoint
import Mathlib.Algebra.Group.Nat.Defs
import Mathlib.Order.Monotone.Basic

/-!
# Ranks count sizes upwards

The number of a rank is larger than that of the rank before, also where a binade
ends and the steps double (`strictMono_units`).  So a bound on ranks is a bound on sizes,
and the coordinates of points are at most ninety and a hundred and eighty degrees
away from zero (`within_rightAngle_iff`, `within_straightAngle_iff`).
-/

namespace Firestore

namespace BinaryFormat

/-- The number of a rank, in units of the smallest positive number. -/
def units (f : BinaryFormat) (rank : Nat) : Nat :=
  f.significand rank * 2 ^ f.shift rank

theorem binade_pos (f : BinaryFormat) : 0 < f.binade := Nat.pow_pos (by decide)

/-- The next number of the same binade is one step further. -/
private theorem units_lt_of_div_eq {f : BinaryFormat} {rank : Nat}
    (h : (rank + 1) / f.binade = rank / f.binade) : f.units rank < f.units (rank + 1) := by
  have hshift : f.shift (rank + 1) = f.shift rank := by
    rw [shift, shift, h]
  have hfirst : f.shift rank * f.binade ≤ rank := by
    have hle : f.shift rank ≤ rank / f.binade := Nat.sub_le _ _
    exact (Nat.mul_le_mul_right _ hle).trans (Nat.div_mul_le_self _ _)
  have hnext : f.significand rank < f.significand (rank + 1) := by
    rw [significand, significand, hshift]
    omega
  rw [units, units, hshift]
  exact Nat.mul_lt_mul_of_pos_right hnext (Nat.pow_pos (by decide))

/-- The first number of a binade is one step after the last one of the binade before, whose steps
are half as long. -/
private theorem units_lt_of_eq_mul {f : BinaryFormat} {rank k : Nat}
    (h : rank + 1 = (k + 1) * f.binade) : f.units rank < f.units (rank + 1) := by
  have hpos := f.binade_pos
  have hlast : rank / f.binade = k := by
    rw [Nat.add_mul, Nat.one_mul] at h
    exact Nat.div_eq_of_lt_le (by omega) (by rw [Nat.add_mul, Nat.one_mul]; omega)
  have hfirst : (rank + 1) / f.binade = k + 1 := by
    rw [h, Nat.mul_div_cancel _ hpos]
  rw [units, units, significand, significand, shift, shift, hlast, hfirst]
  -- the subnormal numbers have the step of the first binade, so there it does not double
  cases k with
  | zero =>
      simp only [Nat.zero_sub, Nat.zero_mul, Nat.sub_zero, Nat.sub_self]
      omega
  | succ k =>
      have hlong : rank - k * f.binade = 2 * f.binade - 1 := by
        rw [Nat.add_mul, Nat.add_mul] at h
        omega
      have hshort : rank + 1 - (k + 1) * f.binade = f.binade := by
        rw [Nat.add_mul] at h
        omega
      simp only [Nat.add_sub_cancel, hlong, hshort]
      calc (2 * f.binade - 1) * 2 ^ k
          < 2 * f.binade * 2 ^ k :=
            Nat.mul_lt_mul_of_pos_right (by omega) (Nat.pow_pos (by decide))
        _ = f.binade * 2 ^ (k + 1) := by
            rw [Nat.pow_succ, Nat.mul_comm 2, Nat.mul_assoc, Nat.mul_comm 2]

theorem strictMono_units (f : BinaryFormat) : StrictMono f.units := by
  apply strictMono_nat_of_lt_succ
  intro rank
  by_cases hend : f.binade ∣ rank + 1
  · obtain ⟨k, hk⟩ := hend
    rw [Nat.mul_comm] at hk
    cases k with
    | zero => omega
    | succ k => exact units_lt_of_eq_mul hk
  · exact units_lt_of_div_eq (Nat.succ_div_of_not_dvd hend)

end BinaryFormat

namespace Floating

variable {f : BinaryFormat}

/-- Whether the size of a number is at most a whole number; never for `nan`. -/
def AtMost (bound : Nat) : Floating f → Prop
  | .nan => False
  | .signed _ rank => (ratio rank).1 ≤ bound * (ratio rank).2

/-- A bound on ranks is a bound on sizes. -/
theorem within_iff_atMost {rank bound : Nat} (h : f.units rank = bound * 2 ^ f.lowest)
    (x : Floating f) : x.within rank = true ↔ x.AtMost bound := by
  cases x with
  | nan => exact ⟨nofun, nofun⟩
  | signed negative r =>
      show decide (r.val ≤ rank) = true ↔ f.units r.val ≤ bound * 2 ^ f.lowest
      rw [decide_eq_true_eq, ← h, f.strictMono_units.le_iff_le]

end Floating

theorem within_rightAngle_iff (x : Double) : x.within rightAngle = true ↔ x.AtMost 90 :=
  Floating.within_iff_atMost (by decide +kernel) x

theorem within_straightAngle_iff (x : Double) : x.within straightAngle = true ↔ x.AtMost 180 :=
  Floating.within_iff_atMost (by decide +kernel) x

end Firestore
