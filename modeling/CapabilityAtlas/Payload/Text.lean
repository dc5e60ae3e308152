import CapabilityAtlas.Fault
import CapabilityAtlas.Numeral.Reading
import CapabilityAtlas.Numeral.Shortest
import CapabilityAtlas.Payload
import CapabilityAtlas.Text.Printable

set_option autoImplicit false
set_option relaxedAutoImplicit false

/-!
The text of a raw value. A text stands for itself; inside a list or a record it is quoted. Numbers
have their shortest decimal, and an integer of too many digits has none.
-/

namespace CapabilityAtlas

open CapabilityAtlas.Numeral CapabilityAtlas.Calendar CapabilityAtlas.Text

namespace Payload

def hexDigit (n : Nat) : Char :=
  if n % 16 < 10 then Char.ofNat (48 + n % 16) else Char.ofNat (87 + n % 16)

def hexDigits : Nat → Nat → List Char
  | 0, _ => []
  | count + 1, n => hexDigits count (n / 16) ++ [hexDigit n]

def quotedChar (quote c : Char) : List Char :=
  if c = quote ∨ c = '\\' then ['\\', c]
  else if c = '\t' then ['\\', 't']
  else if c = '\n' then ['\\', 'n']
  else if c = '\r' then ['\\', 'r']
  else if Printable.isPrintable c then [c]
  else if c.toNat < 0x100 then '\\' :: 'x' :: hexDigits 2 c.toNat
  else if c.toNat < 0x10000 then '\\' :: 'u' :: hexDigits 4 c.toNat
  else '\\' :: 'U' :: hexDigits 8 c.toNat

/-- Double quotes serve a text that has single quotes and no double ones. -/
def quoteFor (cs : List Char) : Char :=
  if cs.contains '\'' && !cs.contains '"' then '"' else '\''

def quotedText (s : String) : String :=
  let quote := quoteFor s.toList
  String.ofList (quote :: s.toList.flatMap (quotedChar quote) ++ [quote])

def integerDecimal (n : Int) : Except Fault String :=
  if n.natAbs < Nat.pow 10 digitLimit then .ok (integerText n) else .error .tooManyDigits

def joined (separator : String) : List String → String
  | [] => ""
  | [s] => s
  | s :: rest => s ++ separator ++ joined separator rest

def durationPieces (ticks : Int) : String :=
  let day := Int.ofNat dayTicks
  let days := if ticks < 0 then ["days=-1"] else []
  let rest := (if ticks < 0 then ticks + day else ticks).toNat
  let seconds := if rest / 1000000 = 0 then []
    else ["seconds=" ++ integerText (Int.ofNat (rest / 1000000))]
  let micros := if rest % 1000000 = 0 then []
    else ["microseconds=" ++ integerText (Int.ofNat (rest % 1000000))]
  joined ", " (days ++ seconds ++ micros)

/-- A moment inside a list or a record; trailing zeros of seconds are left out. -/
def quotedStamp (s : Stamp) : String :=
  let parts := [s.date.year, s.date.month, s.date.day, s.clock.hour, s.clock.minute] ++
    (if s.clock.microsecond ≠ 0 then [s.clock.second, s.clock.microsecond]
     else if s.clock.second ≠ 0 then [s.clock.second] else [])
  let zone := match s.offset with
    | none => []
    | some o => ["tzinfo=" ++ (if o = 0 then "datetime.timezone.utc"
        else "datetime.timezone(datetime.timedelta(" ++ durationPieces o ++ "))")]
  "datetime.datetime(" ++
    joined ", " (parts.map (fun n => integerText (Int.ofNat n)) ++ zone) ++ ")"

mutual

def quoted : Payload → Except Fault String
  | .null => .ok "None"
  | .bool b => .ok (if b then "True" else "False")
  | .int n => integerDecimal n
  | .float x => .ok (shortest x)
  | .text s => .ok (quotedText s)
  | .list items => do return "[" ++ joined ", " (← quotedItems items) ++ "]"
  | .record fields => do return "\x7b" ++ joined ", " (← quotedFields fields) ++ "\x7d"
  | .stamp s => .ok (quotedStamp s)

def quotedItems : List Payload → Except Fault (List String)
  | [] => .ok []
  | item :: rest => do
    let first ← quoted item
    return first :: (← quotedItems rest)

def quotedFields : List (String × Payload) → Except Fault (List String)
  | [] => .ok []
  | (name, value) :: rest => do
    let first ← quoted value
    return (quotedText name ++ ": " ++ first) :: (← quotedFields rest)

end

/-- The text of a value that stands alone. -/
def spelled : Payload → Except Fault String
  | .text s => .ok s
  | .stamp s => .ok (s.isoText " ")
  | value => value.quoted

end Payload

end CapabilityAtlas
