import CapabilityAtlas.Calendar.Date
import CapabilityAtlas.Numeral.Decimal

set_option autoImplicit false
set_option relaxedAutoImplicit false

/-!
Moments. A stamp is a date and a time of day as written, with or without an offset from universal
time; an instant is a point of universal time in the years 1 to 9999, counted in microseconds.
-/

namespace CapabilityAtlas.Calendar

open CapabilityAtlas.Numeral

structure Clock where
  hour : Nat
  minute : Nat
  second : Nat
  microsecond : Nat
  deriving DecidableEq, Repr

/-- A time of day that exists; there are no leap seconds. -/
def Clock.Valid (c : Clock) : Prop :=
  c.hour < 24 ∧ c.minute < 60 ∧ c.second < 60 ∧ c.microsecond < 1000000

instance (c : Clock) : Decidable c.Valid := by unfold Clock.Valid; infer_instance

def Clock.ticks (c : Clock) : Nat :=
  ((c.hour * 60 + c.minute) * 60 + c.second) * 1000000 + c.microsecond

def dayTicks : Nat := 86400000000

/-- A date and time as written; the offset is in microseconds east of universal time. -/
structure Stamp where
  date : Date
  clock : Clock
  offset : Option Int
  deriving DecidableEq, Repr

def Stamp.Valid (s : Stamp) : Prop :=
  s.date.Valid ∧ s.clock.Valid ∧
    (∀ o ∈ s.offset, -(Int.ofNat dayTicks) < o ∧ o < Int.ofNat dayTicks)

/-- Microseconds since the start of year one on the stamp's own clock. -/
def Stamp.localTicks (s : Stamp) : Nat := s.date.dayNumber * dayTicks + s.clock.ticks

/-- Microseconds of universal time; a stamp without offset is universal time. -/
def Stamp.ticks (s : Stamp) : Int := Int.ofNat s.localTicks - s.offset.getD 0

def calendarTicks : Nat := 3652059 * dayTicks

structure Instant where
  ticks : Nat
  inCalendar : ticks < calendarTicks
  deriving DecidableEq

def Instant.ofTicks? (t : Int) : Option Instant :=
  match t with
  | .ofNat n => if h : n < calendarTicks then some ⟨n, h⟩ else none
  | .negSucc _ => none

def Stamp.instant? (s : Stamp) : Option Instant := Instant.ofTicks? s.ticks

def Instant.stamp (i : Instant) : Stamp :=
  let t := i.ticks % dayTicks
  { date := Date.ofDayNumber (i.ticks / dayTicks)
    clock :=
      { hour := t / 3600000000, minute := t / 60000000 % 60, second := t / 1000000 % 60
        microsecond := t % 1000000 }
    offset := some 0 }

def fractionText (microsecond : Nat) : String :=
  if microsecond = 0 then "" else "." ++ paddedText 6 microsecond

/-- An offset: hours and minutes, and seconds only where there are some. -/
def offsetText (offset : Int) : String :=
  let size := offset.natAbs
  let seconds := size / 1000000 % 60
  let rest := if size % 60000000 = 0 then ""
    else ":" ++ paddedText 2 seconds ++ fractionText (size % 1000000)
  (if offset < 0 then "-" else "+") ++ paddedText 2 (size / 3600000000) ++ ":" ++
    paddedText 2 (size / 60000000 % 60) ++ rest

def Stamp.isoText (separator : String) (s : Stamp) : String :=
  paddedText 4 s.date.year ++ "-" ++ paddedText 2 s.date.month ++ "-" ++ paddedText 2 s.date.day ++
    separator ++ paddedText 2 s.clock.hour ++ ":" ++ paddedText 2 s.clock.minute ++ ":" ++
    paddedText 2 s.clock.second ++ fractionText s.clock.microsecond ++
    (match s.offset with | some o => offsetText o | none => "")

def Instant.isoText (i : Instant) : String := i.stamp.isoText "T"

end CapabilityAtlas.Calendar
