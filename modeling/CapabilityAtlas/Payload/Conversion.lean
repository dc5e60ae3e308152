import CapabilityAtlas.Calendar.IsoText
import CapabilityAtlas.Payload.Text

set_option autoImplicit false
set_option relaxedAutoImplicit false

/-!
Conversion of raw values. Optional attributes that cannot be read count as missing; what cannot be
represented at all, a whole number beyond the largest binary one or a moment outside the calendar,
is a failure.
-/

namespace CapabilityAtlas.Payload

open CapabilityAtlas.Numeral CapabilityAtlas.Calendar

def binaryOfInt (n : Int) : Except Fault Float :=
  match ofInt? n with
  | some x => .ok x
  | none => .error .overflow

/-- A finite number, if the value can be read as one; a truth value is none. -/
def number? : Payload → Except Fault (Option Float)
  | .int n => do return some (← binaryOfInt n)
  | .float x => .ok (if x.isFinite then some x else none)
  | .text s => .ok ((readFloat? s).filter Float.isFinite)
  | _ => .ok none

def numberOr (fallback : Float) (value : Payload) : Except Fault Float := do
  return (← value.number?).getD fallback

/-- A whole number, if the value can be read as one; a fraction is cut off. -/
def whole? : Payload → Option Int
  | .int n => some n
  | .float x => (Exact.ofBinary x).truncated?
  | .text s => readInt? s
  | _ => none

def withOffset (text : String) : String :=
  String.ofList (text.toList.flatMap (fun c => if c = 'Z' then "+00:00".toList else [c]))

def instantOf (s : Stamp) : Except Fault (Option Instant) :=
  match s.instant? with
  | some i => .ok (some i)
  | none => .error .overflow

/-- A moment, if the value is one or a text that can be read as one. -/
def moment? : Payload → Except Fault (Option Instant)
  | .text s =>
    match IsoText.read (withOffset s) with
    | some written => instantOf written
    | none => .ok none
  | .stamp s => instantOf s
  | _ => .ok none

def requiredMoment : Payload → Except Fault Stamp
  | .text s =>
    match IsoText.read s with
    | some written => .ok written
    | none => .error .unreadable
  | _ => .error .unsupportedKind

def binary : Payload → Except Fault Float
  | .bool b => .ok (if b then 1 else 0)
  | .int n => binaryOfInt n
  | .float x => .ok x
  | .text s =>
    match readFloat? s with
    | some x => .ok x
    | none => .error (.notNumeric (quotedText s))
  | _ => .error .unsupportedKind

/-- The items of a list, the characters of a text or the field names of a record. -/
def elements : Payload → Except Fault (List Payload)
  | .list items => .ok items
  | .text s => .ok (s.toList.map (fun c => .text (String.singleton c)))
  | .record fields => .ok (fields.map (fun field => .text field.1))
  | _ => .error .unsupportedKind

def element (value : Payload) (position : Nat) : Except Fault Payload :=
  match value with
  | .record _ => .error .absentKey
  | _ => do
    match (← value.elements)[position]? with
    | some item => .ok item
    | none => .error .absentElement

def point (value : Payload) : Except Fault (Float × Float) := do
  let x ← (← value.element 0).binary
  let y ← (← value.element 1).binary
  return (x, y)

def points (value : Payload) : Except Fault (List (Float × Float)) := do
  (← value.elements).mapM point

end CapabilityAtlas.Payload
