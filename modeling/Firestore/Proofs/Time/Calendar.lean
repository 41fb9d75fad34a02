import Firestore.Time.Calendar

/-!
# The calendar counts every day once

A day is a year that starts in March and a day of that year (`ofYearDay`).  The day
number is split into eras, centuries, four-year spans, years and days; the shortened
last century, span and year are why `ofDays` cuts quotients at three (`ofDays_parts`).
From the parts the day number is put together again (`toDays_ofDays`), and the leap
day stands in leap years only (`isValid_ofDays`).  The day numbers from -719528 to
2932896 are those of the years of four digits (`year_ofDays`, `toDays_bounds`).
-/

namespace Firestore.Date

/-- The date of a day, counted from zero, of a year that starts in March. -/
def ofYearDay (year inYear : Int) : Date :=
  let month := (5 * inYear + 2) / 153
  { year := year + (if month < 10 then 0 else 1)
    month := (if month < 10 then month + 3 else month - 9).toNat
    day := (inYear - (153 * month + 2) / 5 + 1).toNat }

/-- How many days of an era go before a year of it. -/
def daysBefore (inEra : Int) : Int := inEra * 365 + inEra / 4 - inEra / 100

/-! ## From days to parts -/

/-- The parts of a day number: an era, a year of it, and a day of that year.  The
year of the last day is one before a leap year. -/
theorem ofDays_parts (days : Int) : ∃ era inEra inYear : Int,
    ofDays days = ofYearDay (era * 400 + inEra) inYear ∧
      days + daysToEpoch = era * daysPerEra + daysBefore inEra + inYear ∧
      0 ≤ inEra ∧ inEra < 400 ∧ 0 ≤ inYear ∧ inYear ≤ 365 ∧
      (inYear = 365 → inEra % 4 = 3 ∧ (inEra % 100 = 99 → inEra = 399)) := by
  obtain ⟨shifted, hshifted⟩ : ∃ shifted, shifted = days + daysToEpoch := ⟨_, rfl⟩
  obtain ⟨rest, hrest⟩ : ∃ rest, rest = shifted % daysPerEra := ⟨_, rfl⟩
  obtain ⟨century, hcentury⟩ : ∃ century, century = min 3 (rest / 36524) := ⟨_, rfl⟩
  obtain ⟨inCentury, hinCentury⟩ : ∃ inCentury, inCentury = rest - century * 36524 := ⟨_, rfl⟩
  obtain ⟨quad, hquad⟩ : ∃ quad, quad = inCentury / 1461 := ⟨_, rfl⟩
  obtain ⟨inQuad, hinQuad⟩ : ∃ inQuad, inQuad = inCentury % 1461 := ⟨_, rfl⟩
  obtain ⟨year, hyear⟩ : ∃ year, year = min 3 (inQuad / 365) := ⟨_, rfl⟩
  have hrestBounds : 0 ≤ rest ∧ rest < 146097 := by
    unfold daysPerEra at hrest
    omega
  have hcenturyBounds : 0 ≤ century ∧ century ≤ 3 := by omega
  -- Only the last century has room for a twenty-fifth leap day.
  have hinCenturyBounds :
      0 ≤ inCentury ∧ inCentury ≤ 36524 ∧ (inCentury = 36524 → century = 3) := by
    omega
  have hquadBounds : 0 ≤ quad ∧ quad ≤ 24 := by omega
  have hyearBounds : 0 ≤ year ∧ year ≤ 3 := by omega
  have hinYearBounds : 0 ≤ inQuad - year * 365 ∧ inQuad - year * 365 ≤ 365 := by omega
  have hsum : rest = daysBefore (century * 100 + quad * 4 + year) + (inQuad - year * 365) := by
    have hquads : (century * 100 + quad * 4 + year) / 4 = century * 25 + quad := by omega
    have hcenturies : (century * 100 + quad * 4 + year) / 100 = century := by omega
    rw [daysBefore, hquads, hcenturies]
    omega
  have hera : shifted = shifted / daysPerEra * daysPerEra + rest := by
    rw [hrest, Int.mul_comm]
    exact (Int.mul_ediv_add_emod shifted daysPerEra).symm
  refine ⟨shifted / daysPerEra, century * 100 + quad * 4 + year, inQuad - year * 365,
    ?_, ?_, ?_, ?_, hinYearBounds.1, hinYearBounds.2, ?_⟩
  · subst hyear hinQuad hquad hinCentury hcentury hrest hshifted
    simp only [ofDays, ofYearDay, Int.add_assoc]
  · omega
  · omega
  · omega
  · intro hlast
    omega

/-! ## From parts to days -/

theorem ofYearDay_before {year inYear : Int} (h : (5 * inYear + 2) / 153 < 10) :
    ofYearDay year inYear =
      ⟨year, ((5 * inYear + 2) / 153 + 3).toNat,
        (inYear - (153 * ((5 * inYear + 2) / 153) + 2) / 5 + 1).toNat⟩ := by
  simp only [ofYearDay, if_pos h, Int.add_zero]

/-- January and February belong to the next year of the calendar. -/
theorem ofYearDay_after {year inYear : Int} (h : ¬(5 * inYear + 2) / 153 < 10) :
    ofYearDay year inYear =
      ⟨year + 1, ((5 * inYear + 2) / 153 - 9).toNat,
        (inYear - (153 * ((5 * inYear + 2) / 153) + 2) / 5 + 1).toNat⟩ := by
  simp only [ofYearDay, if_neg h]

theorem dayOfYear_ofYearDay {year inYear : Int} (hlow : 0 ≤ inYear) (hhigh : inYear ≤ 365) :
    (ofYearDay year inYear).dayOfYear = inYear := by
  obtain ⟨month, hmonth⟩ : ∃ month, month = (5 * inYear + 2) / 153 := ⟨_, rfl⟩
  have hmonthBounds : 0 ≤ month ∧ month ≤ 11 := by omega
  by_cases h : (5 * inYear + 2) / 153 < 10
  · have hmarch : (((5 * inYear + 2) / 153 + 3).toNat + 9) % 12 = month.toNat := by omega
    rw [ofYearDay_before h, dayOfYear]
    simp only [hmarch]
    omega
  · have hmarch : (((5 * inYear + 2) / 153 - 9).toNat + 9) % 12 = month.toNat := by omega
    rw [ofYearDay_after h, dayOfYear]
    simp only [hmarch]
    omega

theorem marchYear_ofYearDay {year inYear : Int} (hlow : 0 ≤ inYear) (hhigh : inYear ≤ 365) :
    (if (ofYearDay year inYear).month ≤ 2 then (ofYearDay year inYear).year - 1
      else (ofYearDay year inYear).year) = year := by
  by_cases h : (5 * inYear + 2) / 153 < 10
  · rw [ofYearDay_before h]
    have hspring : ¬((5 * inYear + 2) / 153 + 3).toNat ≤ 2 := by omega
    exact if_neg hspring
  · rw [ofYearDay_after h]
    have hwinter : ((5 * inYear + 2) / 153 - 9).toNat ≤ 2 := by omega
    simp only [if_pos hwinter]
    omega

theorem toDays_ofYearDay {era inEra inYear : Int} (hlow : 0 ≤ inEra) (hhigh : inEra < 400)
    (hfirst : 0 ≤ inYear) (hlast : inYear ≤ 365) :
    (ofYearDay (era * 400 + inEra) inYear).toDays =
      era * daysPerEra + daysBefore inEra + inYear - daysToEpoch := by
  have hera : (era * 400 + inEra) / 400 = era := by omega
  have hinEra : (era * 400 + inEra) % 400 = inEra := by omega
  simp only [toDays, marchYear_ofYearDay hfirst hlast, dayOfYear_ofYearDay hfirst hlast, hera,
    hinEra, daysBefore]
  omega

/-- **The date of a day number has that day number.** -/
theorem toDays_ofDays (days : Int) : (ofDays days).toDays = days := by
  obtain ⟨era, inEra, inYear, hdate, hsum, hlow, hhigh, hfirst, hlast, -⟩ := ofDays_parts days
  rw [hdate, toDays_ofYearDay hlow hhigh hfirst hlast]
  omega

/-! ## Valid dates -/

/-- A day before the leap day is a day of its month, and so is the leap day of a leap year. -/
theorem isValid_ofYearDay {year inYear : Int} (hfirst : 0 ≤ inYear) (hlast : inYear ≤ 365)
    (hleap : inYear = 365 → isLeap (year + 1) = true) : (ofYearDay year inYear).isValid = true := by
  obtain ⟨month, hmonth⟩ : ∃ month, month = (5 * inYear + 2) / 153 := ⟨_, rfl⟩
  have hday : 1 ≤ (inYear - (153 * month + 2) / 5 + 1).toNat := by omega
  -- the year counts from March: January and February are in the next one
  by_cases h : month < 10
  · rw [ofYearDay_before (hmonth ▸ h), ← hmonth]
    have hcases : month = 0 ∨ month = 1 ∨ month = 2 ∨ month = 3 ∨ month = 4 ∨ month = 5 ∨
        month = 6 ∨ month = 7 ∨ month = 8 ∨ month = 9 := by omega
    have hend : (inYear - (153 * month + 2) / 5 + 1).toNat ≤
        daysInMonth year (month + 3).toNat := by
      rcases hcases with rfl | rfl | rfl | rfl | rfl | rfl | rfl | rfl | rfl | rfl <;>
        simp [daysInMonth] <;> omega
    simp only [isValid, Bool.and_eq_true, decide_eq_true_eq]
    exact ⟨⟨⟨by omega, by omega⟩, hday⟩, hend⟩
  · rw [ofYearDay_after (hmonth ▸ h), ← hmonth]
    have hend : (inYear - (153 * month + 2) / 5 + 1).toNat ≤
        daysInMonth (year + 1) (month - 9).toNat := by
      have hcases : month = 10 ∨ month = 11 := by omega
      rcases hcases with rfl | rfl
      · simp [daysInMonth]
        omega
      · -- February has its twenty-ninth day in a leap year only.
        have hshort : isLeap (year + 1) = false → inYear ≠ 365 := by
          intro hnot heq
          rw [hleap heq] at hnot
          cases hnot
        show _ ≤ if isLeap (year + 1) then 29 else 28
        cases hyear : isLeap (year + 1) with
        | true =>
            rw [if_pos rfl]
            omega
        | false =>
            have hne := hshort hyear
            rw [if_neg (by decide)]
            omega
    simp only [isValid, Bool.and_eq_true, decide_eq_true_eq]
    exact ⟨⟨⟨by omega, by omega⟩, hday⟩, hend⟩

/-- **The calendar has the date of every day number.** -/
theorem isValid_ofDays (days : Int) : (ofDays days).isValid = true := by
  obtain ⟨era, inEra, inYear, hdate, -, hlow, hhigh, hfirst, hlast, hleap⟩ := ofDays_parts days
  rw [hdate]
  apply isValid_ofYearDay hfirst hlast
  intro hday
  obtain ⟨hquad, hcentury⟩ := hleap hday
  have hfour : (era * 400 + inEra + 1) % 4 = 0 := by omega
  have hhundred : (era * 400 + inEra + 1) % 100 ≠ 0 ∨ (era * 400 + inEra + 1) % 400 = 0 := by
    omega
  simpa [isLeap, hfour] using hhundred

/-- The day numbers from 0000-01-01 to 9999-12-31 have years of four digits. -/
theorem year_ofDays {days : Int} (hlow : -719528 ≤ days) (hhigh : days ≤ 2932896) :
    0 ≤ (ofDays days).year ∧ (ofDays days).year ≤ 9999 := by
  obtain ⟨era, inEra, inYear, hdate, hsum, hera, heraEnd, hfirst, hlast, -⟩ := ofDays_parts days
  unfold daysToEpoch daysPerEra at hsum
  obtain ⟨before, hbefore⟩ : ∃ before, before = daysBefore inEra := ⟨_, rfl⟩
  rw [← hbefore] at hsum
  -- Both ends of the range lie in the last year of an era.
  have hend : inEra = 399 ∧ before = 145731 ∨ inEra ≤ 398 ∧ before ≤ 145369 := by
    unfold daysBefore at hbefore
    omega
  have hnonneg : 0 ≤ before := by
    unfold daysBefore at hbefore
    omega
  have heraBounds : era = -1 ∨ 0 ≤ era ∧ era ≤ 23 ∨ era = 24 := by omega
  rw [hdate]
  by_cases h : (5 * inYear + 2) / 153 < 10
  · rw [ofYearDay_before h]
    show 0 ≤ era * 400 + inEra ∧ era * 400 + inEra ≤ 9999
    omega
  · rw [ofYearDay_after h]
    show 0 ≤ era * 400 + inEra + 1 ∧ era * 400 + inEra + 1 ≤ 9999
    omega

/-- The months of a date go from one to twelve, and its days up to thirty-one. -/
theorem bounds_of_isValid {d : Date} (h : d.isValid = true) :
    1 ≤ d.month ∧ d.month ≤ 12 ∧ 1 ≤ d.day ∧ d.day ≤ 31 := by
  simp only [isValid, Bool.and_eq_true, decide_eq_true_eq] at h
  obtain ⟨⟨⟨hfirst, hlast⟩, hstart⟩, hend⟩ := h
  have hlong : daysInMonth d.year d.month ≤ 31 := by
    unfold daysInMonth
    split
    · split <;> omega
    · split <;> omega
  exact ⟨hfirst, hlast, hstart, Nat.le_trans hend hlong⟩

/-- January and February are the end of a year that starts in March. -/
theorem dayOfYear_bounds {d : Date} (h : d.isValid = true) :
    0 ≤ d.dayOfYear ∧ d.dayOfYear ≤ 367 ∧ (d.month ≤ 2 ↔ 306 ≤ d.dayOfYear) := by
  obtain ⟨hfirst, hlast, hstart, hend⟩ := bounds_of_isValid h
  unfold dayOfYear
  by_cases hwinter : d.month ≤ 2
  · have hmonth : (d.month + 9) % 12 = d.month + 9 := by omega
    rw [hmonth]
    omega
  · have hmonth : (d.month + 9) % 12 = d.month - 3 := by omega
    rw [hmonth]
    omega

/-- The dates with years of four digits go from 0000-01-01 to 9999-12-31. -/
theorem toDays_bounds {d : Date} (h : d.isValid = true) (hlow : 0 ≤ d.year)
    (hhigh : d.year ≤ 9999) : -719528 ≤ d.toDays ∧ d.toDays ≤ 2932896 := by
  obtain ⟨hfirst, hlast, hwinter⟩ := dayOfYear_bounds h
  obtain ⟨inYear, hinYear⟩ : ∃ inYear, inYear = d.dayOfYear := ⟨_, rfl⟩
  rw [← hinYear] at hfirst hlast hwinter
  simp only [toDays, daysPerEra, daysToEpoch, ← hinYear]
  by_cases hmonth : d.month ≤ 2
  · rw [if_pos hmonth]
    omega
  · rw [if_neg hmonth]
    omega

end Firestore.Date
