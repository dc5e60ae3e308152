import CapabilityAtlas.Calendar.Date
import CapabilityAtlas.Calendar.Stamp
import Mathlib.Order.Monotone.Basic

set_option autoImplicit false
set_option relaxedAutoImplicit false

/-!
Day numbers count the days of the calendar. They grow from one date to any later one, so no two
dates share a number, and the date of a number is the one that has it.
-/

namespace CapabilityAtlas.Calendar.Date

def yearLength (year : Nat) : Nat := daysBeforeMonth year 13

variable {d e : Date} {year month n : Nat}

theorem isLeap_iff : isLeap year = true ↔ year % 4 = 0 ∧ (year % 100 ≠ 0 ∨ year % 400 = 0) := by
  simp [isLeap]

private theorem yearLength_eq (year : Nat) :
    yearLength year = if isLeap year then 366 else 365 := by
  cases leap : isLeap year <;> simp [yearLength, daysBeforeMonth, monthLength, leap]

theorem monthLength_le (year month : Nat) : monthLength year month ≤ 31 := by
  unfold monthLength
  repeat' split
  all_goals decide

private theorem daysBeforeMonth_succ (positive : 1 ≤ month) :
    daysBeforeMonth year (month + 1) = daysBeforeMonth year month + monthLength year month := by
  obtain ⟨month, rfl⟩ := Nat.exists_eq_add_of_le' positive
  rfl

private theorem monotone_daysBeforeMonth (year : Nat) : Monotone (daysBeforeMonth year) := by
  refine monotone_nat_of_le_succ fun month => ?_
  cases month with
  | zero => exact Nat.le_refl 0
  | succ month =>
    rw [daysBeforeMonth_succ (Nat.le_add_left 1 month)]
    exact Nat.le_add_right _ _

private theorem daysBeforeYear_succ (positive : 1 ≤ year) :
    daysBeforeYear (year + 1) = daysBeforeYear year + yearLength year := by
  obtain ⟨years, rfl⟩ := Nat.exists_eq_add_of_le' positive
  have fours : (years + 1) / 4 = years / 4 + if (years + 1) % 4 = 0 then 1 else 0 := by
    split <;> omega
  have centuries : (years + 1) / 100 = years / 100 + if (years + 1) % 100 = 0 then 1 else 0 := by
    split <;> omega
  have cycles : (years + 1) / 400 = years / 400 + if (years + 1) % 400 = 0 then 1 else 0 := by
    split <;> omega
  have fewer : years / 100 ≤ years / 4 := Nat.div_le_div_left (by decide) (by decide)
  have century : (years + 1) % 100 = 0 → (years + 1) % 4 = 0 := by omega
  have cycle : (years + 1) % 400 = 0 → (years + 1) % 100 = 0 := by omega
  have leap : isLeap (years + 1) = true ↔ _ := isLeap_iff
  simp only [yearLength_eq, daysBeforeYear, Nat.add_sub_cancel, fours, centuries, cycles]
  by_cases four : (years + 1) % 4 = 0 <;> by_cases hundred : (years + 1) % 100 = 0 <;>
    by_cases whole : (years + 1) % 400 = 0 <;> simp_all <;> omega

private theorem monotone_daysBeforeYear : Monotone daysBeforeYear := by
  refine monotone_nat_of_le_succ fun year => ?_
  rcases Nat.eq_zero_or_pos year with rfl | positive
  · exact Nat.le_refl 0
  · rw [daysBeforeYear_succ positive]
    exact Nat.le_add_right _ _

private theorem Valid.dayOfYear_lt (valid : d.Valid) :
    daysBeforeMonth d.year d.month + (d.day - 1) < daysBeforeMonth d.year (d.month + 1) := by
  obtain ⟨-, -, month, -, day, inMonth⟩ := valid
  rw [daysBeforeMonth_succ month]
  omega

private theorem Valid.dayNumber_lt (valid : d.Valid) :
    d.dayNumber < daysBeforeYear (d.year + 1) := by
  have inMonth := valid.dayOfYear_lt
  have inYear : daysBeforeMonth d.year (d.month + 1) ≤ yearLength d.year :=
    monotone_daysBeforeMonth d.year (Nat.succ_le_succ valid.2.2.2.1)
  rw [daysBeforeYear_succ valid.1, dayNumber]
  omega

private theorem daysBeforeYear_le_dayNumber (d : Date) : daysBeforeYear d.year ≤ d.dayNumber := by
  rw [dayNumber, Nat.add_assoc]
  exact Nat.le_add_right _ _

private theorem Valid.year_le (valid : d.Valid) (le : e.dayNumber ≤ d.dayNumber) :
    e.year ≤ d.year := by
  by_contra later
  have after : daysBeforeYear (d.year + 1) ≤ daysBeforeYear e.year :=
    monotone_daysBeforeYear (Nat.lt_of_not_le later)
  have start := daysBeforeYear_le_dayNumber e
  have stop := valid.dayNumber_lt
  omega

private theorem Valid.month_le (valid : d.Valid) (year : d.year = e.year)
    (le : e.dayNumber ≤ d.dayNumber) : e.month ≤ d.month := by
  by_contra later
  have after : daysBeforeMonth d.year (d.month + 1) ≤ daysBeforeMonth d.year e.month :=
    monotone_daysBeforeMonth d.year (Nat.lt_of_not_le later)
  have stop := valid.dayOfYear_lt
  rw [dayNumber, dayNumber, ← year] at le
  omega

theorem Valid.eq_of_dayNumber_eq (valid : d.Valid) (valid' : e.Valid)
    (same : d.dayNumber = e.dayNumber) : d = e := by
  have year : d.year = e.year :=
    Nat.le_antisymm (valid'.year_le same.le) (valid.year_le same.ge)
  have month : d.month = e.month :=
    Nat.le_antisymm (valid'.month_le year.symm same.le) (valid.month_le year same.ge)
  have day : d.day = e.day := by
    obtain ⟨-, -, -, -, first, -⟩ := valid
    obtain ⟨-, -, -, -, first', -⟩ := valid'
    rw [dayNumber, dayNumber, year, month] at same
    omega
  cases d
  cases e
  simp_all

private theorem monthAndDay_spec (year more month days : Nat) (positive : 1 ≤ month) :
    let found := monthAndDay year more month days
    month ≤ found.1 ∧ found.1 ≤ month + more ∧ 1 ≤ found.2 ∧
      daysBeforeMonth year found.1 + (found.2 - 1) = daysBeforeMonth year month + days ∧
      (found.2 ≤ monthLength year found.1 ∨ found.1 = month + more) := by
  induction more generalizing month days with
  | zero => simp [monthAndDay]
  | succ more ih =>
    rw [monthAndDay]
    split
    · rename_i inMonth
      refine ⟨Nat.le_refl _, Nat.le_add_right _ _, Nat.le_add_left _ _, rfl, Or.inl inMonth⟩
    · rename_i beyond
      obtain ⟨after, upTo, first, count, inside⟩ :=
        ih (month + 1) (days - monthLength year month) (Nat.le_add_left _ _)
      rw [daysBeforeMonth_succ positive] at count
      refine ⟨by omega, by omega, first, by omega, ?_⟩
      rcases inside with inMonth | last
      · exact Or.inl inMonth
      · exact Or.inr (by omega)

private theorem dayNumber_of_monthAndDay {days : Nat} (inYear : days < yearLength d.year)
    (walk : monthAndDay d.year 11 1 days = (d.month, d.day)) :
    1 ≤ d.month ∧ d.month ≤ 12 ∧ 1 ≤ d.day ∧ d.day ≤ monthLength d.year d.month ∧
      d.dayNumber = daysBeforeYear d.year + days := by
  have spec := monthAndDay_spec d.year 11 1 days (Nat.le_refl 1)
  have january : daysBeforeMonth d.year 1 = 0 := rfl
  simp only [walk, january, Nat.zero_add, Nat.reduceAdd] at spec
  obtain ⟨after, upTo, first, count, inside⟩ := spec
  refine ⟨after, upTo, first, ?_, by rw [dayNumber, Nat.add_assoc, count]⟩
  rcases inside with inMonth | december
  · exact inMonth
  · have whole : yearLength d.year = daysBeforeMonth d.year 12 + monthLength d.year 12 :=
      daysBeforeMonth_succ (by decide)
    rw [december] at count ⊢
    omega

section Cycles

-- The years before one as cycles of 400 years, centuries, leap cycles and single years.
variable {a b c y : Nat}

private theorem daysBeforeYear_of_cycles (hb : b ≤ 3) (hc : c ≤ 24) (hy : y ≤ 3) :
    daysBeforeYear (400 * a + 100 * b + 4 * c + y + 1) =
      146097 * a + 36524 * b + 1461 * c + 365 * y := by
  have fours : (400 * a + 100 * b + 4 * c + y) / 4 = 100 * a + 25 * b + c := by omega
  have centuries : (400 * a + 100 * b + 4 * c + y) / 100 = 4 * a + b := by omega
  have cycles : (400 * a + 100 * b + 4 * c + y) / 400 = a := by omega
  rw [daysBeforeYear, Nat.add_sub_cancel, fours, centuries, cycles]
  omega

/-- The last year of a leap cycle has one day more, unless it ends a century that does not end the
cycle of 400 years. -/
private theorem yearLength_of_cycles (hc : c ≤ 24) (whole : y = 3 ∧ (c < 24 ∨ b = 3)) :
    yearLength (400 * a + 100 * b + 4 * c + y + 1) = 366 := by
  rw [yearLength_eq, if_pos (isLeap_iff.mpr (by omega))]

private theorem le_yearLength (year : Nat) : 365 ≤ yearLength year := by
  rw [yearLength_eq]
  split <;> decide

end Cycles

private theorem ofDayNumber_year (n : Nat) :
    ∃ days < yearLength (ofDayNumber n).year, daysBeforeYear (ofDayNumber n).year + days = n ∧
      monthAndDay (ofDayNumber n).year 11 1 days =
        ((ofDayNumber n).month, (ofDayNumber n).day) := by
  let inCycle := n % 146097
  let centuries := min (inCycle / 36524) 3
  let inCentury := inCycle - centuries * 36524
  let leaps := inCentury / 1461
  let inLeap := inCentury % 1461
  let years := min (inLeap / 365) 3
  have year : (ofDayNumber n).year =
    400 * (n / 146097) + 100 * centuries + 4 * leaps + years + 1 := rfl
  refine ⟨inLeap - years * 365, ?_, ?_, (Prod.eta _).symm⟩
  all_goals
    have whole : 146097 * (n / 146097) + inCycle = n := Nat.div_add_mod n 146097
    have century : centuries * 36524 + inCentury = inCycle ∧
        (centuries < 3 ∧ inCentury < 36524 ∨ centuries = 3 ∧ inCentury ≤ 36524) := by omega
    have leap : 1461 * leaps + inLeap = inCentury := Nat.div_add_mod inCentury 1461
    have inside : inLeap < 1461 := Nat.mod_lt _ (by decide)
    have single : years ≤ 3 ∧ years * 365 ≤ inLeap ∧
        (inLeap - years * 365 < 365 ∨ years = 3) := by omega
    rw [year]
    clear_value years inLeap leaps inCentury centuries inCycle
    have hc : leaps ≤ 24 := by omega
  · by_cases last : inLeap - years * 365 < 365
    · exact last.trans_le (le_yearLength _)
    · rw [yearLength_of_cycles hc (by omega)]
      omega
  · rw [daysBeforeYear_of_cycles (by omega) hc single.1]
    omega

theorem dayNumber_ofDayNumber (n : Nat) : (ofDayNumber n).dayNumber = n := by
  obtain ⟨days, inYear, count, walk⟩ := ofDayNumber_year n
  obtain ⟨-, -, -, -, same⟩ := dayNumber_of_monthAndDay inYear walk
  exact same.trans count

private theorem daysBeforeYear_end : daysBeforeYear 10000 = 3652059 := by decide

theorem valid_ofDayNumber (inCalendar : n < 3652059) : (ofDayNumber n).Valid := by
  obtain ⟨days, inYear, count, walk⟩ := ofDayNumber_year n
  obtain ⟨first, last, day, inMonth, -⟩ := dayNumber_of_monthAndDay inYear walk
  refine ⟨Nat.le_add_left _ _, ?_, first, last, day, inMonth⟩
  by_contra beyond
  have after : daysBeforeYear 10000 ≤ daysBeforeYear (ofDayNumber n).year :=
    monotone_daysBeforeYear (Nat.lt_of_not_le beyond)
  have start := daysBeforeYear_le_dayNumber (ofDayNumber n)
  rw [daysBeforeYear_end] at after
  rw [dayNumber_ofDayNumber] at start
  exact Nat.lt_irrefl n ((inCalendar.trans_le after).trans_le start)

private theorem Valid.dayNumber_lt_end (valid : d.Valid) : d.dayNumber < 3652059 := by
  have upTo : daysBeforeYear (d.year + 1) ≤ daysBeforeYear 10000 :=
    monotone_daysBeforeYear (Nat.succ_le_succ valid.2.1)
  rw [daysBeforeYear_end] at upTo
  exact valid.dayNumber_lt.trans_le upTo

end CapabilityAtlas.Calendar.Date

/-!
Instants as stamps of universal time. Every instant has one such stamp and every such stamp that is
valid denotes an instant, so a stamp denotes an instant exactly if universal time can express it.
-/

namespace CapabilityAtlas.Calendar

open Date (daysBeforeYear)

private theorem Clock.Valid.ticks_lt {c : Clock} (valid : c.Valid) : c.ticks < dayTicks := by
  obtain ⟨hour, minute, second, microsecond⟩ := valid
  rw [Clock.ticks, dayTicks]
  omega

private theorem Clock.Valid.eq_of_ticks_eq {c c' : Clock} (valid : c.Valid) (valid' : c'.Valid)
    (same : c.ticks = c'.ticks) : c = c' := by
  obtain ⟨-, minute, second, microsecond⟩ := valid
  obtain ⟨-, minute', second', microsecond'⟩ := valid'
  rw [Clock.ticks, Clock.ticks] at same
  cases c
  cases c'
  simp only [Clock.mk.injEq] at minute second microsecond minute' second' microsecond' same ⊢
  omega

private theorem calendarTicks_eq : calendarTicks = daysBeforeYear 10000 * dayTicks := by
  rw [Date.daysBeforeYear_end, calendarTicks]

namespace Stamp

variable {s u : Stamp} {i : Instant}

/-- Whether a stamp denotes a moment of the years 1 to 9999 of universal time. -/
def InCalendar (s : Stamp) : Prop :=
  0 ≤ s.ticks ∧ s.ticks < Int.ofNat (daysBeforeYear 10000 * dayTicks)

/-- Whether a stamp of universal time denotes the same moment as another stamp. -/
structure IsUniversalFormOf (u s : Stamp) : Prop where
  valid : u.Valid
  offset : u.offset = some 0
  ticks : u.ticks = s.ticks

private theorem Valid.localTicks_lt (valid : s.Valid) : s.localTicks < calendarTicks := by
  have date := valid.1.dayNumber_lt_end
  have clock := valid.2.1.ticks_lt
  rw [localTicks, calendarTicks]
  calc s.date.dayNumber * dayTicks + s.clock.ticks
      < (s.date.dayNumber + 1) * dayTicks := by rw [Nat.succ_mul]; omega
    _ ≤ 3652059 * dayTicks := Nat.mul_le_mul_right _ date

private theorem Valid.eq_of_localTicks_eq (valid : s.Valid) (valid' : u.Valid)
    (same : s.localTicks = u.localTicks) (offset : s.offset = u.offset) : s = u := by
  have clock := valid.2.1.ticks_lt
  have clock' := valid'.2.1.ticks_lt
  have positive : 0 < dayTicks := by decide
  rw [localTicks, localTicks] at same
  have dayNumber : s.date.dayNumber = u.date.dayNumber := by
    have quotient := congrArg (· / dayTicks) same
    simpa [Nat.mul_comm, Nat.mul_add_div positive, Nat.div_eq_of_lt clock,
      Nat.div_eq_of_lt clock'] using quotient
  rw [dayNumber] at same
  have date := valid.1.eq_of_dayNumber_eq valid'.1 dayNumber
  have clock := valid.2.1.eq_of_ticks_eq valid'.2.1 (Nat.add_left_cancel same)
  cases s
  cases u
  simp_all

theorem instant?_eq_some_iff : s.instant? = some i ↔ s.ticks = i.ticks := by
  obtain ⟨ticks, inCalendar⟩ := i
  rw [instant?]
  cases s.ticks with
  | ofNat n =>
    simp only [Instant.ofTicks?]
    split
    · rw [Option.some.injEq, Instant.mk.injEq]
      exact Int.ofNat_inj.symm
    · rename_i beyond
      refine iff_of_false (by simp) fun same => beyond ?_
      rwa [Int.ofNat.inj same]
  | negSucc n => simp [Instant.ofTicks?]

theorem instant?_eq_none_iff : s.instant? = none ↔ ¬ s.InCalendar := by
  rw [instant?, InCalendar, ← calendarTicks_eq]
  cases s.ticks with
  | ofNat n => simp [Instant.ofTicks?]
  | negSucc n => simp [Instant.ofTicks?]

end Stamp

namespace Instant

theorem valid_stamp (i : Instant) : i.stamp.Valid := by
  have inCalendar := i.inCalendar
  have days : i.ticks / dayTicks < 3652059 :=
    Nat.div_lt_of_lt_mul (by rwa [Nat.mul_comm])
  have clock : i.ticks % dayTicks < dayTicks := Nat.mod_lt _ (by decide)
  refine ⟨Date.valid_ofDayNumber days, ?_, ?_⟩
  · simp only [stamp, Clock.Valid, dayTicks] at clock ⊢
    omega
  · simp [stamp, dayTicks]

theorem localTicks_stamp (i : Instant) : i.stamp.localTicks = i.ticks := by
  have clock : i.stamp.clock.ticks = i.ticks % dayTicks := by
    have below : i.ticks % dayTicks < dayTicks := Nat.mod_lt _ (by decide)
    simp only [stamp, Clock.ticks, dayTicks] at below ⊢
    omega
  have date : i.stamp.date.dayNumber = i.ticks / dayTicks := Date.dayNumber_ofDayNumber _
  rw [Stamp.localTicks, clock, date, Nat.div_add_mod']

theorem ticks_stamp (i : Instant) : i.stamp.ticks = i.ticks := by
  have universal : i.stamp.offset = some 0 := rfl
  rw [Stamp.ticks, localTicks_stamp, universal]
  simp

theorem instant?_stamp (i : Instant) : i.stamp.instant? = some i :=
  Stamp.instant?_eq_some_iff.mpr i.ticks_stamp

end Instant

/-- The forms of a stamp in universal time are the stamps of the instant that it denotes. -/
theorem Stamp.isUniversalFormOf_iff {s u : Stamp} :
    u.IsUniversalFormOf s ↔ ∃ i, s.instant? = some i ∧ i.stamp = u := by
  constructor
  · intro form
    let i : Instant := ⟨u.localTicks, form.valid.localTicks_lt⟩
    have count : u.ticks = i.ticks := by simp [ticks, form.offset, i]
    exact ⟨i, instant?_eq_some_iff.mpr (form.ticks.symm.trans count),
      i.valid_stamp.eq_of_localTicks_eq form.valid i.localTicks_stamp form.offset.symm⟩
  · rintro ⟨i, found, rfl⟩
    exact ⟨i.valid_stamp, rfl, i.ticks_stamp.trans (instant?_eq_some_iff.mp found).symm⟩

end CapabilityAtlas.Calendar
