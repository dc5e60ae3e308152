set_option autoImplicit false
set_option relaxedAutoImplicit false

/-!
Dates of the Gregorian calendar extended to all years, and their day numbers. Day zero is the
first of January of year one, a Monday.
-/

namespace CapabilityAtlas.Calendar

structure Date where
  year : Nat
  month : Nat
  day : Nat
  deriving DecidableEq, Repr

namespace Date

def isLeap (year : Nat) : Bool := year % 4 == 0 && (year % 100 != 0 || year % 400 == 0)

def monthLength (year month : Nat) : Nat :=
  if month = 2 then (if isLeap year then 29 else 28)
  else if month = 4 ∨ month = 6 ∨ month = 9 ∨ month = 11 then 30
  else 31

def Valid (d : Date) : Prop :=
  1 ≤ d.year ∧ d.year ≤ 9999 ∧ 1 ≤ d.month ∧ d.month ≤ 12 ∧
    1 ≤ d.day ∧ d.day ≤ monthLength d.year d.month

instance (d : Date) : Decidable d.Valid := by unfold Valid; infer_instance

def daysBeforeYear (year : Nat) : Nat :=
  (year - 1) * 365 + (year - 1) / 4 - (year - 1) / 100 + (year - 1) / 400

def daysBeforeMonth (year : Nat) : Nat → Nat
  | 0 => 0
  | 1 => 0
  | month + 1 => daysBeforeMonth year month + monthLength year month

def dayNumber (d : Date) : Nat :=
  daysBeforeYear d.year + daysBeforeMonth d.year d.month + (d.day - 1)

/-- Walks through the months of a year until the given number of days is used up. -/
def monthAndDay (year : Nat) : Nat → Nat → Nat → Nat × Nat
  | 0, month, days => (month, days + 1)
  | more + 1, month, days =>
    if days < monthLength year month then (month, days + 1)
    else monthAndDay year more (month + 1) (days - monthLength year month)

/-- The date of a day number: 400, 100, 4 and single years are split off in turn. -/
def ofDayNumber (n : Nat) : Date :=
  let cycles := n / 146097
  let inCycle := n % 146097
  let centuries := min (inCycle / 36524) 3
  let inCentury := inCycle - centuries * 36524
  let leaps := inCentury / 1461
  let inLeap := inCentury % 1461
  let years := min (inLeap / 365) 3
  let year := 400 * cycles + 100 * centuries + 4 * leaps + years + 1
  let (month, day) := monthAndDay year 11 1 (inLeap - years * 365)
  { year := year, month := month, day := day }

def weekday (n : Nat) : Nat := n % 7

/-- The Monday of the first week of a year, the week that holds its first Thursday. -/
def firstMonday (year : Nat) : Nat :=
  let first := daysBeforeYear year
  if 3 < weekday first then first - weekday first + 7 else first - weekday first

def hasLongWeekYear (year : Nat) : Bool :=
  let first := weekday (daysBeforeYear year)
  first == 3 || (first == 2 && isLeap year)

def ofWeek? (year week day : Nat) : Option Date :=
  if 1 ≤ year ∧ 1 ≤ week ∧ (week ≤ 52 ∨ (week = 53 ∧ hasLongWeekYear year)) ∧
      1 ≤ day ∧ day ≤ 7 then
    some (ofDayNumber (firstMonday year + (week - 1) * 7 + (day - 1)))
  else none

end Date

end CapabilityAtlas.Calendar
