import CapabilityAtlas.Calendar.IsoText
import CapabilityAtlas.Proofs.Calendar.Stamp
import CapabilityAtlas.Proofs.Numeral.Decimal
import Mathlib.Algebra.Group.Nat.Defs

set_option autoImplicit false
set_option relaxedAutoImplicit false

/-!
What is written of a stamp reads back as that stamp. The one loss is an offset below a second,
which reads as none.
-/

namespace CapabilityAtlas.Calendar

/-- Whether an offset is zero or at least a second, if there is one. -/
def Stamp.HasReadableOffset (s : Stamp) : Prop := ∀ o ∈ s.offset, o = 0 ∨ 1000000 ≤ o.natAbs

namespace IsoText

open CapabilityAtlas.Numeral

def fractionChars (microsecond : Nat) : List Char :=
  if microsecond = 0 then [] else '.' :: paddedDigits 6 microsecond

def clockChars (c : Clock) : List Char :=
  paddedDigits 2 c.hour ++ ':' :: (paddedDigits 2 c.minute ++ ':' ::
    (paddedDigits 2 c.second ++ fractionChars c.microsecond))

def minuteChars (c : Clock) : List Char :=
  if c.second = 0 ∧ c.microsecond = 0 then
    paddedDigits 2 c.hour ++ ':' :: paddedDigits 2 c.minute
  else clockChars c

/-- The size of an offset as a time of day. -/
def offsetSize (offset : Int) : Clock :=
  { hour := offset.natAbs / 3600000000, minute := offset.natAbs / 60000000 % 60
    second := offset.natAbs / 1000000 % 60, microsecond := offset.natAbs % 1000000 }

def offsetChars : Option Int → List Char
  | none => []
  | some offset => (if offset < 0 then '-' else '+') :: minuteChars (offsetSize offset)

def dateChars (d : Date) : List Char :=
  paddedDigits 4 d.year ++ '-' :: (paddedDigits 2 d.month ++ '-' :: paddedDigits 2 d.day)

private theorem toList_fractionText (microsecond : Nat) :
    (fractionText microsecond).toList = fractionChars microsecond := by
  unfold fractionText fractionChars paddedText
  split <;> simp

private theorem toList_offsetText (offset : Int) :
    (offsetText offset).toList = offsetChars (some offset) := by
  have whole : offset.natAbs % 60000000 = 0 ↔
      (offsetSize offset).second = 0 ∧ (offsetSize offset).microsecond = 0 := by
    simp only [offsetSize]
    omega
  rw [offsetChars, minuteChars, clockChars, ← toList_fractionText]
  simp only [← whole]
  by_cases minutes : offset.natAbs % 60000000 = 0 <;> by_cases west : offset < 0 <;>
    simp [offsetText, paddedText, offsetSize, minutes, west]

private theorem toList_isoText (s : Stamp) : (s.isoText "T").toList =
    dateChars s.date ++ 'T' :: (clockChars s.clock ++ offsetChars s.offset) := by
  rw [dateChars, clockChars, ← toList_fractionText]
  cases zone : s.offset with
  | none => simp [Stamp.isoText, paddedText, zone, offsetChars]
  | some offset => simp [Stamp.isoText, paddedText, zone, toList_offsetText]

section Characters

variable {p : Char → Prop}

private theorem forall_mem_clockChars (digits : ∀ n, p (digit n)) (colon : p ':') (point : p '.')
    (clock : Clock) : ∀ c ∈ clockChars clock, p c := by
  have padded := forall_mem_paddedDigits digits
  have fraction : ∀ c ∈ fractionChars clock.microsecond, p c := by
    unfold fractionChars
    split
    · simp
    · rintro c (_ | ⟨_, later⟩)
      exacts [point, padded _ _ c later]
  simp only [clockChars, List.mem_append, List.mem_cons]
  rintro c (hour | rfl | minute | rfl | second | rest)
  exacts [padded _ _ c hour, colon, padded _ _ c minute, colon, padded _ _ c second,
    fraction c rest]

private theorem forall_mem_minuteChars (digits : ∀ n, p (digit n)) (colon : p ':') (point : p '.')
    (clock : Clock) : ∀ c ∈ minuteChars clock, p c := by
  have padded := forall_mem_paddedDigits digits
  unfold minuteChars
  split
  · simp only [List.mem_append, List.mem_cons]
    rintro c (hour | rfl | minute)
    exacts [padded _ _ c hour, colon, padded _ _ c minute]
  · exact forall_mem_clockChars digits colon point clock

theorem forall_mem_isoText (digits : ∀ n, p (digit n))
    (marks : ∀ c ∈ ['-', ':', '.', '+', 'T'], p c) (s : Stamp) :
    ∀ c ∈ (s.isoText "T").toList, p c := by
  have padded := forall_mem_paddedDigits digits
  have colon := marks ':' (by simp)
  have point := marks '.' (by simp)
  have hyphen := marks '-' (by simp)
  have zone : ∀ c ∈ offsetChars s.offset, p c := by
    cases s.offset with
    | none => simp [offsetChars]
    | some offset =>
      rintro c (_ | ⟨_, size⟩)
      · split
        exacts [hyphen, marks '+' (by simp)]
      · exact forall_mem_minuteChars digits colon point _ c size
  simp only [toList_isoText, dateChars, List.mem_append, List.mem_cons]
  rintro c ((year | rfl | month | rfl | day) | rfl | clock | offset)
  exacts [padded _ _ c year, hyphen, padded _ _ c month, hyphen, padded _ _ c day,
    marks 'T' (by simp), forall_mem_clockChars digits colon point _ c clock, zone c offset]

end Characters

private theorem digitValue?_digit (n : Nat) : digitValue? (digit n) = some (n % 10) := by
  rw [digitValue?, if_pos (isDigit_digit n), toNat_digit]
  simp

private theorem readDigits_add (count more n : Nat) (text : List Char) :
    readDigits (count + more) n text =
      (readDigits count n text).bind fun read => readDigits more read.1 read.2 := by
  induction count generalizing n text with
  | zero => simp [readDigits]
  | succ count ih =>
    rw [Nat.succ_add]
    cases text with
    | nil => rfl
    | cons c rest =>
      cases value : digitValue? c with
      | none => simp [readDigits, value]
      | some v => simp [readDigits, value, ih]

private theorem readDigits_paddedDigits (places n onto : Nat) (rest : List Char) :
    readDigits places onto (paddedDigits places n ++ rest) =
      some (10 ^ places * onto + n % 10 ^ places, rest) := by
  induction places generalizing n rest with
  | zero => simp [readDigits, paddedDigits, Nat.mod_one]
  | succ places ih =>
    have value : n % 10 ^ (places + 1) = 10 * (n / 10 % 10 ^ places) + n % 10 := by
      rw [Nat.pow_succ', Nat.mod_mul, Nat.add_comm]
    rw [readDigits_add, paddedDigits, List.append_assoc, ih]
    simp only [Option.bind_some, List.cons_append, List.nil_append, readDigits, digitValue?_digit,
      Option.bind_eq_bind, value, Option.some.injEq, Prod.mk.injEq, and_true]
    rw [Nat.pow_succ', Nat.mul_add, Nat.mul_assoc, Nat.add_assoc]

private theorem readDigits_append_of_lt {places n : Nat} (small : n < 10 ^ places)
    (rest : List Char) :
    readDigits places 0 (paddedDigits places n ++ rest) = some (n, rest) := by
  rw [readDigits_paddedDigits, Nat.mod_eq_of_lt small, Nat.mul_zero, Nat.zero_add]

private theorem readDigits_of_lt {places n : Nat} (small : n < 10 ^ places) :
    readDigits places 0 (paddedDigits places n) = some (n, []) := by
  simpa using readDigits_append_of_lt small []

theorem flatMap_eq_self {f : Char → List Char} {cs : List Char} (kept : ∀ c ∈ cs, f c = [c]) :
    cs.flatMap f = cs := by
  induction cs with
  | nil => rfl
  | cons c cs ih =>
    rw [List.flatMap_cons, kept c List.mem_cons_self,
      ih fun d later => kept d (List.mem_cons_of_mem _ later)]
    rfl

private theorem places_eq_self {cs : List Char} (bytes : ∀ c ∈ cs, c.utf8Size = 1) :
    places cs = cs :=
  flatMap_eq_self fun c member => by
    rw [bytes c member]
    rfl

private theorem length_dateChars (d : Date) : (dateChars d).length = 10 := by
  simp [dateChars, paddedDigits_length]

private theorem separatorPlace?_eq (d : Date) (c : Char) (rest : List Char) :
    separatorPlace? (dateChars d ++ c :: rest) = some 10 := by
  have week : digit (d.month / 10) ≠ 'W' := digit_ne rfl
  simp [separatorPlace?, dateChars, paddedDigits, week]

theorem readDate_dateChars {d : Date} (valid : d.Valid) : readDate (dateChars d) = some d := by
  obtain ⟨-, year, -, month, -, day⟩ := valid
  have length := Date.monthLength_le d.year d.month
  have year : d.year < 10 ^ 4 := by omega
  have month : d.month < 10 ^ 2 := by omega
  have day : d.day < 10 ^ 2 := by omega
  unfold readDate dateChars
  simp only [readDigits_append_of_lt year, Option.bind_eq_bind, Option.bind_some, List.head?_cons,
    BEq.rfl, if_true, List.drop_succ_cons, List.drop_zero]
  split
  · rename_i week
    -- a month starts with a digit
    simp only [paddedDigits, List.nil_append, List.cons_append, List.cons.injEq] at week
    exact absurd week.1 (digit_ne rfl)
  · simp [readDigits_append_of_lt month, skipHyphen, readDigits_of_lt day]

private theorem readFraction_paddedDigits {microsecond : Nat} (next : Char)
    (small : microsecond < 10 ^ 6) : readFraction next (paddedDigits 6 microsecond) =
      some (microsecond, decide (next ≠ terminator)) := by
  simp [readFraction, paddedDigits_length, readDigits_of_lt small]
  rfl

private theorem paddedDigits_two_ne_nil (n : Nat) : paddedDigits 2 n ≠ [] := by
  simp [paddedDigits]

private theorem readClock_clockChars {c : Clock} (valid : c.Valid) (next : Char) :
    readClock next (clockChars c) = some (c, decide (next ≠ terminator)) := by
  obtain ⟨hour, minute, second, microsecond⟩ := valid
  have hour : c.hour < 10 ^ 2 := by omega
  have minute : c.minute < 10 ^ 2 := by omega
  have second : c.second < 10 ^ 2 := by omega
  have colon : isFractionMark ':' = false := rfl
  have point : isFractionMark '.' = true := rfl
  unfold readClock clockChars fractionChars
  split
  · rename_i whole
    have same : (⟨c.hour, c.minute, c.second, 0⟩ : Clock) = c := by rw [← whole]
    simp [readDigits_append_of_lt hour, readDigits_append_of_lt minute, readDigits_of_lt second,
      colon, paddedDigits_two_ne_nil, same]
    rfl
  · simp [readDigits_append_of_lt hour, readDigits_append_of_lt minute,
      readDigits_append_of_lt second, colon, point, paddedDigits_length,
      readFraction_paddedDigits next microsecond]

private theorem readClock_minuteChars {c : Clock} (valid : c.Valid) (next : Char) :
    readClock next (minuteChars c) = some (c, decide (next ≠ terminator)) := by
  unfold minuteChars
  split
  · rename_i whole
    obtain ⟨hour, minute, -⟩ := valid
    have hour : c.hour < 10 ^ 2 := by omega
    have minute : c.minute < 10 ^ 2 := by omega
    have colon : isFractionMark ':' = false := rfl
    have same : (⟨c.hour, c.minute, 0, 0⟩ : Clock) = c := by
      cases c
      simp_all
    unfold readClock
    simp [readDigits_append_of_lt hour, readDigits_of_lt minute, colon, paddedDigits_two_ne_nil,
      same]
    rfl
  · exact readClock_clockChars valid next

private theorem valid_offsetSize {offset : Int} (below : offset.natAbs < dayTicks) :
    (offsetSize offset).Valid := by
  simp only [offsetSize, Clock.Valid, dayTicks] at below ⊢
  omega

private theorem offsetOf_offsetSize {offset : Int}
    (readable : offset = 0 ∨ 1000000 ≤ offset.natAbs) :
    offsetOf (decide (offset < 0)) (offsetSize offset) = offset := by
  have seconds : (offsetSize offset).hour * 3600 + (offsetSize offset).minute * 60 +
      (offsetSize offset).second = offset.natAbs / 1000000 := by
    simp only [offsetSize]
    omega
  have ticks : offset.natAbs / 1000000 * 1000000 + (offsetSize offset).microsecond =
      offset.natAbs := Nat.div_add_mod' _ _
  rw [offsetOf, seconds, ticks]
  rcases readable with rfl | whole
  · rfl
  · rw [if_neg (by omega), offsetOf.signed]
    by_cases west : offset < 0
    · rw [if_pos (decide_eq_true west), Int.ofNat_eq_natCast]
      omega
    · rw [if_neg (by simpa using west), Int.ofNat_eq_natCast]
      omega

/-- The time of day ends where the offset starts. -/
theorem readTime_of_valid {s : Stamp} (valid : s.Valid) (readable : s.HasReadableOffset) :
    readTime (clockChars s.clock ++ offsetChars s.offset) = some (s.clock, s.offset) := by
  have inside : ∀ c ∈ clockChars s.clock, (!startsOffset c) = true :=
    forall_mem_clockChars (p := fun c => (!startsOffset c) = true)
      (fun n => by simp [startsOffset, digit_ne]) rfl rfl s.clock
  obtain ⟨-, clock, below⟩ := valid
  unfold readTime
  rw [List.takeWhile_append_of_pos inside, List.dropWhile_append_of_pos inside]
  cases zone : s.offset with
  | none => simp [offsetChars, readClock_clockChars clock]
  | some offset =>
    have same := offsetOf_offsetSize (readable offset zone)
    have below : offset.natAbs < dayTicks := by
      have := below offset zone
      rw [Int.ofNat_eq_natCast] at this
      omega
    have size := readClock_minuteChars (valid_offsetSize below) terminator
    by_cases west : offset < 0
    · rw [decide_eq_true west] at same
      simp [offsetChars, west, startsOffset, readClock_clockChars clock, size, same, below]
    · rw [decide_eq_false west] at same
      simp [offsetChars, west, startsOffset, readClock_clockChars clock, size, same, below]

/-- A written stamp reads back as it was. -/
theorem read_isoText {s : Stamp} (valid : s.Valid) (readable : s.HasReadableOffset) :
    read (s.isoText "T") = some s := by
  have marks : ∀ c ∈ ['-', ':', '.', '+', 'T'], c.utf8Size = 1 := by
    simp only [List.forall_mem_cons]
    exact ⟨rfl, rfl, rfl, rfl, rfl, by simp⟩
  have bytes := forall_mem_isoText utf8Size_digit marks s
  have single : 'T'.utf8Size - 1 = 0 := rfl
  have ten := length_dateChars s.date
  rw [read, places_eq_self bytes, toList_isoText]
  simp only [separatorPlace?_eq, Option.bind_eq_bind, Option.bind_some, List.take_left' ten,
    List.drop_left' ten, readDate_dateChars valid.1, single, List.drop_zero,
    readTime_of_valid valid readable]
  rw [if_pos ⟨valid.1, valid.2.1⟩]
  rfl

end IsoText

end CapabilityAtlas.Calendar
