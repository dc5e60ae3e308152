import CapabilityAtlas.Calendar.Stamp

set_option autoImplicit false
set_option relaxedAutoImplicit false

/-!
Reading dates and times in the international notation: calendar and week dates in the extended
and the basic form, one character of any kind as separator, a time to the hour, the minute, the
second or a fraction of it, and an offset. Positions count the bytes of the text, and a text reads
as if a null character followed it.
-/

namespace CapabilityAtlas.Calendar.IsoText

/-- One place per byte: a character that takes more is followed by fillers. -/
def places (cs : List Char) : List Char :=
  cs.flatMap (fun c => c :: List.replicate (c.utf8Size - 1) '\u0080')

/-- The null character stands behind the end of a text. -/
def terminator : Char := '\x00'

def digitValue? (c : Char) : Option Nat :=
  if c.isDigit then some (c.toNat - '0'.toNat) else none

def readDigits : Nat → Nat → List Char → Option (Nat × List Char)
  | 0, n, rest => some (n, rest)
  | _ + 1, _, [] => none
  | count + 1, n, c :: rest => do readDigits count (10 * n + (← digitValue? c)) rest

/-- The place of the separator. Week dates leave it open; then the count of digits decides in the
basic form, and a digit after a second hyphen is a time in the extended form. -/
def separatorPlace? (text : List Char) : Option Nat :=
  let size := text.length
  let charAt := fun (i : Nat) => text[i]?.getD terminator
  if size < 7 then none
  else if size = 7 then some 7
  else if charAt 4 = '-' then
    if charAt 5 = 'W' then
      if size > 8 ∧ charAt 8 = '-' then
        if size = 9 then none
        else if size > 10 ∧ (charAt 10).isDigit then some 8 else some 10
      else some 8
    else some 10
  else if charAt 4 = 'W' then
    let digitsEnd := 7 + ((text.drop 7).takeWhile Char.isDigit).length
    if digitsEnd < 9 then some digitsEnd
    else if digitsEnd % 2 = 0 then some 7 else some 8
  else some 8

def skipHyphen (extended : Bool) (text : List Char) : Option (List Char) :=
  if extended then
    match text with
    | '-' :: rest => some rest
    | _ => none
  else some text

def readDate (text : List Char) : Option Date := do
  let (year, rest) ← readDigits 4 0 text
  let extended := rest.head? == some '-'
  let rest := if extended then rest.drop 1 else rest
  match rest with
  | 'W' :: rest =>
    let (week, rest) ← readDigits 2 0 rest
    match rest with
    | [] => Date.ofWeek? year week 1
    | _ =>
      let (day, _) ← readDigits 1 0 (← skipHyphen extended rest)
      Date.ofWeek? year week day
  | _ =>
    let (month, rest) ← readDigits 2 0 rest
    let (day, _) ← readDigits 2 0 (← skipHyphen extended rest)
    pure { year := year, month := month, day := day }

/-- Reads the fraction of a second: six digits count and more are skipped. The second component
tells whether anything but the terminator follows. -/
def readFraction (next : Char) (text : List Char) : Option (Nat × Bool) := do
  let count := min text.length 6
  let (value, rest) ← readDigits count 0 text
  let rest := rest.dropWhile Char.isDigit
  pure (value * Nat.pow 10 (6 - count), (rest.head?.getD next) ≠ terminator)

def isFractionMark (c : Char) : Bool := c == '.' || c == ','

/-- Reads a time of day from a text that the character `next` follows. The parts are separated by
colons if the first two are, and not at all otherwise; a fraction, always of a second, may follow
any of them, and behind the seconds one more colon introduces it as well. The second component
tells whether one character was left over. -/
def readClock (next : Char) (text : List Char) : Option (Clock × Bool) := do
  let (hour, rest) ← readDigits 2 0 text
  let c := rest.head?.getD next
  let extended := c == ':'
  if rest.length ≤ 1 then return (⟨hour, 0, 0, 0⟩, c ≠ terminator)
  if isFractionMark c then
    let (micro, leftover) ← readFraction next (rest.drop 1)
    return (⟨hour, 0, 0, micro⟩, leftover)
  let (minute, rest) ← readDigits 2 0 (if extended then rest.drop 1 else rest)
  let c := rest.head?.getD next
  if rest.length ≤ 1 then return (⟨hour, minute, 0, 0⟩, c ≠ terminator)
  if isFractionMark c then
    let (micro, leftover) ← readFraction next (rest.drop 1)
    return (⟨hour, minute, 0, micro⟩, leftover)
  if extended && c != ':' then none
  let (second, rest) ← readDigits 2 0 (if extended then rest.drop 1 else rest)
  let c := rest.head?.getD next
  if rest.length ≤ 1 then return (⟨hour, minute, second, 0⟩, c ≠ terminator)
  let marked := isFractionMark c || (extended && c == ':')
  if extended && !marked then none
  let (micro, leftover) ← readFraction next (if marked then rest.drop 1 else rest)
  return (⟨hour, minute, second, micro⟩, leftover)

def startsOffset (c : Char) : Bool := c == '+' || c == '-' || c == 'Z'

/-- The offset written by a sign and a time; less than a second counts only beside whole seconds. -/
def offsetOf (negative : Bool) (c : Clock) : Int :=
  let seconds := c.hour * 3600 + c.minute * 60 + c.second
  if seconds = 0 then 0 else signed negative (seconds * 1000000 + c.microsecond)
where
  signed (negative : Bool) (n : Nat) : Int := if negative then -(Int.ofNat n) else Int.ofNat n

/-- Reads a time of day with its offset. One stray character is passed over before an offset. -/
def readTime (text : List Char) : Option (Clock × Option Int) := do
  let region := text.takeWhile (fun c => !startsOffset c)
  let rest := text.dropWhile (fun c => !startsOffset c)
  let (clock, leftover) ← readClock (rest.head?.getD terminator) region
  match rest with
  | [] => if leftover then none else pure (clock, none)
  | 'Z' :: more => if more.head?.getD terminator = terminator then pure (clock, some 0) else none
  | sign :: more =>
    let (size, leftover) ← readClock terminator more
    if leftover then none
    else
      let offset := offsetOf (sign == '-') size
      if offset.natAbs < dayTicks then pure (clock, some offset) else none

def read (text : String) : Option Stamp := do
  let text := places text.toList
  let place ← separatorPlace? text
  let date ← readDate (text.take place)
  let (clock, offset) ← match text.drop place with
    | [] => pure (⟨0, 0, 0, 0⟩, none)
    | c :: rest => readTime (rest.drop (c.utf8Size - 1))
  if date.Valid ∧ clock.Valid then pure { date := date, clock := clock, offset := offset } else none

end CapabilityAtlas.Calendar.IsoText
