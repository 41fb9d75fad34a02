import Firestore.Time.Timestamp

/-!
# The calendar

Dates of the proleptic Gregorian calendar, counted in days from 1970-01-01.
Years are counted from March here, so that the leap day is the last day of its
year: four hundred such years, an era, always have the same number of days.

`DateTime` is a moment that the calendar can show, years -262143 to 262142.  Its
nanoseconds may run into a second one, a leap second, at the end of a minute.
-/

namespace Firestore

/-- A day of the calendar. -/
structure Date where
  year : Int
  month : Nat
  day : Nat
  deriving DecidableEq, Repr

namespace Date

def isLeap (year : Int) : Bool :=
  year % 4 == 0 && (year % 100 != 0 || year % 400 == 0)

def daysInMonth (year : Int) (month : Nat) : Nat :=
  if month = 2 then (if isLeap year then 29 else 28)
  else if month = 4 ∨ month = 6 ∨ month = 9 ∨ month = 11 then 30
  else 31

/-- Whether the calendar has this date. -/
def isValid (d : Date) : Bool :=
  1 ≤ d.month && d.month ≤ 12 && 1 ≤ d.day && d.day ≤ daysInMonth d.year d.month

/-- The days of four hundred years. -/
def daysPerEra : Int := 146097

/-- The days from the first of March of year 0 to the start of 1970. -/
def daysToEpoch : Int := 719468

/-- How many days of its March-based year go before a date. -/
def dayOfYear (d : Date) : Int :=
  (153 * ((d.month + 9) % 12 : Nat) + 2) / 5 + d.day - 1

/-- Days from 1970-01-01 to a date. -/
def toDays (d : Date) : Int :=
  let year := if d.month ≤ 2 then d.year - 1 else d.year
  let era := year / 400
  let inEra := year % 400
  era * daysPerEra + inEra * 365 + inEra / 4 - inEra / 100 + d.dayOfYear - daysToEpoch

/-- The date some days after 1970-01-01. -/
def ofDays (days : Int) : Date :=
  let shifted := days + daysToEpoch
  let era := shifted / daysPerEra
  let inEra := shifted % daysPerEra
  let century := min 3 (inEra / 36524)
  let inCentury := inEra - century * 36524
  let quad := inCentury / 1461
  let inQuad := inCentury % 1461
  let year := min 3 (inQuad / 365)
  let inYear := inQuad - year * 365
  let month := (5 * inYear + 2) / 153
  let day := inYear - (153 * month + 2) / 5 + 1
  { year := era * 400 + century * 100 + quad * 4 + year + (if month < 10 then 0 else 1)
    month := (if month < 10 then month + 3 else month - 9).toNat
    day := day.toNat }

end Date

/-- A moment that the calendar can show. -/
structure DateTime where
  seconds : Int
  nanos : Nat
  deriving DecidableEq, Repr

namespace DateTime

def secondsPerDay : Int := 86400

/-- The first second of the calendar, at the start of the year -262143. -/
def firstSecond : Int := Date.toDays ⟨-262143, 1, 1⟩ * secondsPerDay

/-- The last second of the calendar, at the end of the year 262142. -/
def lastSecond : Int := (Date.toDays ⟨262142, 12, 31⟩ + 1) * secondsPerDay - 1

/-- The moment of seconds and nanoseconds, if the calendar has it. -/
def make? (seconds : Int) (nanos : Int) : Option DateTime :=
  if firstSecond ≤ seconds ∧ seconds ≤ lastSecond ∧ 0 ≤ nanos ∧
      (nanos < 1000000000 ∨ (nanos < 2000000000 ∧ seconds % 60 = 59)) then
    some ⟨seconds, nanos.toNat⟩
  else none

end DateTime

namespace Timestamp

/-- The calendar moment of a timestamp, if the calendar has it. -/
def toDateTime? (t : Timestamp) : Option DateTime :=
  DateTime.make? t.seconds.toInt t.nanos.toInt

/-- The timestamp of a calendar moment. -/
def ofDateTime (d : DateTime) : Timestamp :=
  normalized (.ofInt d.seconds) (.ofNat d.nanos)

/-- The timestamp of a calendar moment, its nanoseconds left out. -/
def ofDateTimeSeconds (d : DateTime) : Timestamp :=
  normalized (.ofInt d.seconds) 0

end Timestamp

end Firestore
