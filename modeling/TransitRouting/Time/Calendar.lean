/-
  TransitRouting.Time.Calendar
  ────────────────────────────
  Calendar dates, and the date and time of day on which a service-day time
  falls.

  Dates are those of the Gregorian calendar, extended to all years.  They are
  numbered in days: the count starts with 1 March of year 0, so that the leap
  day is the last day of its numbering year and months have a regular pattern
  of lengths.
-/
import TransitRouting.Time.Clock

namespace TransitRouting

/-! ## §1. Dates. -/

/-- A date of the Gregorian calendar. -/
structure Date where
  /-- Year; the year before year 1 is year 0. -/
  year : Int
  /-- Month, from 1. -/
  month : Nat
  /-- Day of the month, from 1. -/
  day : Nat
deriving DecidableEq, Repr

namespace Date

/-- The first year in which dates are accepted. -/
def firstYear : Int := -262143

/-- The last year in which dates are accepted. -/
def lastYear : Int := 262142

/-- Every fourth year is a leap year, save each hundredth that is not a four
hundredth. -/
def isLeapYear (year : Int) : Bool :=
  year % 4 = 0 && (year % 100 ≠ 0 || year % 400 = 0)

/-- Number of days of a month. -/
def daysInMonth (year : Int) (month : Nat) : Nat :=
  if month = 2 then (if isLeapYear year then 29 else 28)
  else if month = 4 ∨ month = 6 ∨ month = 9 ∨ month = 11 then 30
  else 31

/-- The date with the given year, month and day, if the calendar has it. -/
def ofParts? (year : Int) (month day : Nat) : Option Date :=
  if firstYear ≤ year ∧ year ≤ lastYear ∧ 1 ≤ month ∧ month ≤ 12 ∧ 1 ≤ day ∧
      day ≤ daysInMonth year month then
    some ⟨year, month, day⟩
  else none

/-- Days from 1 March of year 0 to the date. -/
def dayNumber (d : Date) : Int :=
  -- January and February belong to the numbering year before.
  let year := if d.month ≤ 2 then d.year - 1 else d.year
  let month := (d.month + 9) % 12
  year * 365 + year / 4 - year / 100 + year / 400 + (153 * month + 2 : Nat) / 5 + d.day - 1

/-- The date with the given day number.

A cycle of 400 years has 146097 days.  Within it, `year` counts whole years
that start in March, and the months from March on have 31, 30, 31, 30, 31
days over and over, which is what multiplying by 153 and dividing by 5 spells. -/
def ofDayNumber (n : Int) : Date :=
  let cycle := n / 146097
  let day := n % 146097
  -- Leave out the leap days at the ends of 4, 100 and 400 years.
  let year := (day - day / 1460 + day / 36524 - day / 146096) / 365
  let dayOfYear := day - (365 * year + year / 4 - year / 100)
  -- Counted from March.
  let month := (5 * dayOfYear + 2) / 153
  let dayOfMonth := dayOfYear - (153 * month + 2) / 5 + 1
  let civilMonth := if month < 10 then month + 3 else month - 9
  ⟨cycle * 400 + year + (if civilMonth ≤ 2 then 1 else 0), civilMonth.toNat, dayOfMonth.toNat⟩

/-- The year in at least four digits; one outside 0 to 9999 has its sign. -/
def yearText (year : Int) : String :=
  let pad (width n : Nat) : String :=
    let digits := toString n
    String.ofList (List.replicate (width - digits.length) '0') ++ digits
  if 0 ≤ year ∧ year ≤ 9999 then pad 4 year.toNat
  else (if year < 0 then "-" else "+") ++ pad 4 year.natAbs

/-- Year, month and day with dashes between them. -/
def text (d : Date) : String :=
  yearText d.year ++ "-" ++ Clock.twoDigits d.month ++ "-" ++ Clock.twoDigits d.day

end Date

/-! ## §2. Dates with a time of day. -/

/-- A date and the seconds since its midnight. -/
structure DateTime where
  /-- The date. -/
  date : Date
  /-- Seconds since the date's midnight, less than a day's. -/
  secondOfDay : Nat
deriving DecidableEq, Repr

namespace DateTime

/-- Date and clock reading with a blank between them. -/
def text (d : DateTime) : String := d.date.text ++ " " ++ Clock.reading d.secondOfDay

end DateTime

/-- The date and time of day of a service-day time, for a service day that
starts at the midnight of `date`.  There is none outside the accepted years. -/
def Time.on? (t : Time) (date : Date) : Option DateTime :=
  let fallsOn := Date.ofDayNumber (date.dayNumber + t.seconds / 86400)
  if Date.firstYear ≤ fallsOn.year ∧ fallsOn.year ≤ Date.lastYear then
    some ⟨fallsOn, (t.seconds % 86400).toNat⟩
  else none

end TransitRouting
