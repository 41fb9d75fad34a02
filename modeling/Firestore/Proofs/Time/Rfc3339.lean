import Firestore.Proofs.Time.Calendar
import Firestore.Proofs.Time.Grammar
import Mathlib.Algebra.Group.Nat.Defs

/-!
# Written times are read back

The writer fills its numbers up to their widths and gives nine places of the second, so
the text of a moment of the calendar with a year of four digits is one of the grammar and
stands for the moment, leap seconds included (`isMoment_write`).  It is therefore read
back (`read_write`).
-/

namespace Firestore

namespace Rfc3339

/-! ## Numbers -/

/-- A number that is filled up to a width is a number of this width. -/
theorem isField_padded {width n : Nat} (hwidth : 0 < width) (hn : n < 10 ^ width) :
    IsField width n (padded width n).toList := by
  have hlength : (Nat.toDigits 10 n).length ≤ width :=
    (Nat.length_toDigits_le_iff (by decide) hwidth).mpr hn
  rw [padded, String.toList_ofList]
  refine ⟨?_, ?_, ?_⟩
  · rw [List.length_append, List.length_replicate]
    omega
  · intro c hc
    rcases List.mem_append.mp hc with hzero | hdigit
    · rw [(List.mem_replicate.mp hzero).2]
      rfl
    · exact Nat.isDigit_of_mem_toDigits (by decide) (by decide) hdigit
  · rw [Nat.ofDigitChars_append, Nat.ofDigitChars_replicate_zero, Nat.mul_zero,
      Nat.ofDigitChars_ten_toDigits]

/-- Nine places are the nanoseconds. -/
theorem isFraction_padded {nanos : Nat} (h : nanos < 10 ^ 9) :
    IsFraction nanos ('.' :: (padded 9 nanos).toList) := by
  obtain ⟨hlength, hdigits, hvalue⟩ := isField_padded (by decide) h
  have hsome : (padded 9 nanos).toList ≠ [] := by
    intro hnone
    rw [hnone] at hlength
    contradiction
  have htake : (padded 9 nanos).toList.takeD 9 '0' = (padded 9 nanos).toList := by
    rw [List.takeD_eq_take _ (Nat.le_of_eq hlength.symm)]
    exact List.take_of_length_le (Nat.le_of_eq hlength)
  have hfraction := IsFraction.present ⟨hsome, hdigits⟩
  rwa [htake, ← hvalue] at hfraction

/-! ## Dates and times of day -/

/-- The month and the day of a valid date have two digits. -/
theorem lt_of_isValid {date : Date} (h : date.isValid = true) :
    date.month < 10 ^ 2 ∧ date.day < 10 ^ 2 := by
  have hbounds := Date.bounds_of_isValid h
  omega

theorem isDate_text {date : Date} (hvalid : date.isValid = true) (hlow : 0 ≤ date.year)
    (hhigh : date.year ≤ 9999) :
    IsDate date ((yearText date.year).toList ++ '-' :: (padded 2 date.month).toList ++
      '-' :: (padded 2 date.day).toList) := by
  obtain ⟨hmonth, hday⟩ := lt_of_isValid hvalid
  have hsame : (⟨date.year.toNat, date.month, date.day⟩ : Date) = date := by
    rw [Int.toNat_of_nonneg hlow]
  have hyear : IsField 4 date.year.toNat (yearText date.year).toList := by
    rw [yearText, if_pos ⟨hlow, hhigh⟩]
    exact isField_padded (by decide) (by omega)
  have hdate := IsDate.intro hyear (isField_padded (by decide) hmonth)
    (isField_padded (by decide) hday) (hsame.symm ▸ hvalid)
  rwa [hsame] at hdate

/-- What the calendar asks of nanoseconds: a leap second ends a minute. -/
theorem nanos_of_make? {d : DateTime} (h : DateTime.make? d.seconds d.nanos = some d) :
    d.nanos < 1000000000 ∨ d.nanos < 2000000000 ∧ d.seconds % 60 = 59 := by
  unfold DateTime.make? at h
  split at h
  · rename_i hrange
    omega
  · cases h

/-- The second that a text shows; a leap second is the sixtieth. -/
def shownSecond (inDay nanos : Nat) : Nat :=
  if 1000000000 ≤ nanos then inDay % 60 + 1 else inDay % 60

/-- The nanoseconds that a text shows. -/
def shownNanos (nanos : Nat) : Nat :=
  if 1000000000 ≤ nanos then nanos - 1000000000 else nanos

/-- What a text shows is the time that it was written for. -/
theorem timeParts_shown {inDay nanos : Nat}
    (h : nanos < 1000000000 ∨ nanos < 2000000000 ∧ inDay % 60 = 59) :
    timeParts (inDay / 3600) (inDay / 60 % 60) (shownSecond inDay nanos) (shownNanos nanos) =
      (inDay, nanos) := by
  have hsplit : inDay / 3600 * 3600 + inDay / 60 % 60 * 60 + inDay % 60 = inDay := by omega
  by_cases hleap : 1000000000 ≤ nanos
  · have hlast : inDay % 60 = 59 := by omega
    rw [timeParts, shownSecond, shownNanos, if_pos hleap, if_pos hleap, if_pos (by omega)]
    exact Prod.ext (by omega) (by omega)
  · rw [timeParts, shownSecond, shownNanos, if_neg hleap, if_neg hleap, if_neg (by omega)]
    exact Prod.ext (by omega) rfl

theorem isTimeOfDay_text {inDay nanos : Nat} (hinDay : inDay < 86400)
    (hnanos : nanos < 1000000000 ∨ nanos < 2000000000 ∧ inDay % 60 = 59) :
    IsTimeOfDay (inDay, nanos) ((padded 2 (inDay / 3600)).toList ++
      ':' :: (padded 2 (inDay / 60 % 60)).toList ++
      ':' :: (padded 2 (shownSecond inDay nanos)).toList ++
      '.' :: (padded 9 (shownNanos nanos)).toList) := by
  have hhour : inDay / 3600 < 24 := by omega
  have hminute : inDay / 60 % 60 < 60 := Nat.mod_lt _ (by decide)
  have hsecond : shownSecond inDay nanos ≤ 60 := by
    unfold shownSecond
    split <;> omega
  have hfraction : shownNanos nanos < 10 ^ 9 := by
    unfold shownNanos
    split <;> omega
  rw [← timeParts_shown hnanos]
  exact .intro (isField_padded (by decide) (by omega)) (isField_padded (by decide) (by omega))
    (isField_padded (by decide) (by omega)) (isFraction_padded hfraction)
    ⟨hhour, hminute, hsecond⟩

/-! ## Whole texts -/

/-- The characters of the text of a moment. -/
theorem toList_write {d : DateTime} {date : Date} {inDay : Nat}
    (hdate : date = Date.ofDays (d.seconds / DateTime.secondsPerDay))
    (hinDay : inDay = (d.seconds % DateTime.secondsPerDay).toNat) :
    (write d).toList = (yearText date.year).toList ++ '-' :: (padded 2 date.month).toList ++
      '-' :: (padded 2 date.day).toList ++ 'T' :: ((padded 2 (inDay / 3600)).toList ++
      ':' :: (padded 2 (inDay / 60 % 60)).toList ++
      ':' :: (padded 2 (shownSecond inDay d.nanos)).toList ++
      '.' :: (padded 9 (shownNanos d.nanos)).toList) ++ ['Z'] := by
  rw [write, ← hdate, ← hinDay]
  simp [shownSecond, shownNanos, toString]

/-- The text of a moment with a year of four digits stands for the moment. -/
theorem isMoment_write {d : DateTime} (hcalendar : DateTime.make? d.seconds d.nanos = some d)
    (hlow : -62167219200 ≤ d.seconds) (hhigh : d.seconds ≤ 253402300799) :
    IsMoment d (write d).toList := by
  obtain ⟨date, hdate⟩ : ∃ date, date = Date.ofDays (d.seconds / DateTime.secondsPerDay) :=
    ⟨_, rfl⟩
  obtain ⟨inDay, hinDay⟩ : ∃ inDay, inDay = (d.seconds % DateTime.secondsPerDay).toNat := ⟨_, rfl⟩
  have hday : DateTime.secondsPerDay = 86400 := rfl
  have hseconds : d.seconds / DateTime.secondsPerDay * DateTime.secondsPerDay + inDay =
      d.seconds := by
    rw [hday] at hinDay ⊢
    omega
  have hvalid : date.isValid = true := hdate ▸ Date.isValid_ofDays _
  obtain ⟨hyearLow, hyearHigh⟩ : 0 ≤ date.year ∧ date.year ≤ 9999 := by
    rw [hdate]
    apply Date.year_ofDays <;> rw [hday] <;> omega
  -- nanoseconds past one second stand in the last second of a minute only
  have hleap : d.nanos < 1000000000 ∨ d.nanos < 2000000000 ∧ inDay % 60 = 59 := by
    have hnanos := nanos_of_make? hcalendar
    rw [hday] at hinDay
    omega
  have hrange : inDay < 86400 := by
    rw [hday] at hinDay
    omega
  have hmoment := IsMoment.intro (isDate_text hvalid hyearLow hyearHigh) (by simp : 'T' ∈ _)
    (isTimeOfDay_text hrange hleap) (.zulu (.inl rfl)) (by decide)
  rw [hdate, Date.toDays_ofDays, Int.sub_zero, hseconds, ← hdate, ← toList_write hdate hinDay]
    at hmoment
  exact hmoment

/-- **A moment with a year of four digits is read from its own text.** -/
theorem read_write {d : DateTime} (hcalendar : DateTime.make? d.seconds d.nanos = some d)
    (hlow : -62167219200 ≤ d.seconds) (hhigh : d.seconds ≤ 253402300799) :
    read (write d) = .ok d :=
  read_eq_ok.mpr (isMoment_write hcalendar hlow hhigh)

end Rfc3339

end Firestore
