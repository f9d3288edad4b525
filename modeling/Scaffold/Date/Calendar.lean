/-!
The proleptic Gregorian calendar: days of the year and of the week, weeks of the year, and the
number of seconds since 1970. Years are astronomical, so the year before 1 is 0.
-/

namespace Scaffold.Date

/-- A local time, with its distance from UTC in seconds. From 10^9 on, `nanosecond` counts into a
leap second. -/
structure LocalTime where
  year : Int
  month : Nat
  day : Nat
  hour : Nat
  minute : Nat
  second : Nat
  nanosecond : Nat
  offset : Int
  deriving DecidableEq, Repr

def isLeapYear (year : Int) : Bool :=
  year % 4 = 0 && (year % 100 ≠ 0 || year % 400 = 0)

def daysInMonth (year : Int) : Nat → Nat
  | 2 => if isLeapYear year then 29 else 28
  | 4 | 6 | 9 | 11 => 30
  | _ => 31

/-- The number of days between 31 December of the year 0 and 1 January of the given year. -/
def daysBeforeYear (year : Int) : Int :=
  let y := year - 1
  365 * y + y / 4 - y / 100 + y / 400

/-- The number of weeks that a year has in the ISO 8601 calendar: one more than 52 if it starts on
a Thursday, or is a leap year that starts on a Wednesday. -/
def isoWeeksInYear (year : Int) : Nat :=
  let firstWeekday := daysBeforeYear year % 7
  if firstWeekday = 3 ∨ (firstWeekday = 2 ∧ isLeapYear year) then 53 else 52

namespace LocalTime

/-- The day of the year. 1 January is day 1. -/
def dayOfYear (t : LocalTime) : Nat :=
  (List.range (t.month - 1)).foldl (fun days m => days + daysInMonth t.year (m + 1)) t.day

/-- The number of days since 31 December of the year 0. -/
def dayNumber (t : LocalTime) : Int :=
  daysBeforeYear t.year + t.dayOfYear

/-- The number of days since Monday. Day 1 was a Monday. -/
def daysFromMonday (t : LocalTime) : Nat :=
  ((t.dayNumber - 1) % 7).toNat

/-- The number of days since Sunday. -/
def daysFromSunday (t : LocalTime) : Nat :=
  (t.daysFromMonday + 1) % 7

/-- The number of Mondays in the year up to this day. -/
def weekFromMonday (t : LocalTime) : Nat :=
  (t.dayOfYear + 6 - t.daysFromMonday) / 7

/-- The number of Sundays in the year up to this day. -/
def weekFromSunday (t : LocalTime) : Nat :=
  (t.dayOfYear + 6 - t.daysFromSunday) / 7

/-- The year and the week in the ISO 8601 calendar, whose weeks start on Monday and belong to the
year that holds their Thursday. -/
def isoWeek (t : LocalTime) : Int × Nat :=
  let week := (t.dayOfYear + 9 - t.daysFromMonday) / 7
  if week = 0 then (t.year - 1, isoWeeksInYear (t.year - 1))
  else if week > isoWeeksInYear t.year then (t.year + 1, 1)
  else (t.year, week)

/-- The number of seconds since 1970-01-01 00:00:00 UTC. -/
def timestamp (t : LocalTime) : Int :=
  (t.dayNumber - 719163) * 86400 + (t.hour * 3600 + t.minute * 60 + t.second : Nat) - t.offset

/-- The hour on a clock face of twelve hours. -/
def hour12 (t : LocalTime) : Nat :=
  if t.hour % 12 = 0 then 12 else t.hour % 12

/-- The second, 60 in a leap second. -/
def clockSecond (t : LocalTime) : Nat :=
  t.second + t.nanosecond / 1000000000

/-- The nanosecond within the second on the clock. -/
def clockNanosecond (t : LocalTime) : Nat :=
  t.nanosecond % 1000000000

end LocalTime

end Scaffold.Date
