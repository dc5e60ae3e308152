import CapabilityAtlas.Numeral.Decimal

set_option autoImplicit false
set_option relaxedAutoImplicit false

/-!
The fewest decimal digits that read back as a given binary64. Around the exact value lies the
interval of numbers that round to it; for one digit, two digits and so on the two neighbours of
the value on the grid of that many digits are tried, and the first grid with a hit wins.
-/

namespace CapabilityAtlas.Numeral

/-- A positive value `num / den`, with the distances up and down, in units of `1 / den`, to the
ends of the interval that rounds to it; `closed` says whether the ends belong to it. -/
structure Rounding where
  num : Nat
  den : Nat
  up : Nat
  down : Nat
  closed : Bool

/-- The interval of `m · 2 ^ e`; below a power of two the gap is half as wide. -/
def Rounding.ofDyadic (m : Nat) (e : Int) : Rounding :=
  let narrow := decide (m = Nat.pow 2 52) && decide (-1074 < e)
  match e with
  | .ofNat k =>
    { num := 4 * m * Nat.pow 2 k, den := 4, up := 2 * Nat.pow 2 k
      down := if narrow then Nat.pow 2 k else 2 * Nat.pow 2 k, closed := m % 2 = 0 }
  | .negSucc k =>
    { num := 4 * m, den := 4 * Nat.pow 2 (k + 1), up := 2
      down := if narrow then 1 else 2, closed := m % 2 = 0 }

structure Digits where
  significant : List Char
  point : Int

/-- The least `t` up to a bound with `den ≤ num · 10 ^ t`. -/
def leadingZeros : Nat → Nat → Nat → Nat
  | 0, _, _ => 0
  | bound + 1, num, den => if den ≤ num then 0 else leadingZeros bound (num * 10) den + 1

/-- The decimal exponent: `10 ^ (point - 1) ≤ num / den < 10 ^ point`. -/
def decimalPoint (num den : Nat) : Int :=
  if den ≤ num then Int.ofNat (digits (num / den)).length
  else 1 - Int.ofNat (leadingZeros 400 num den)

/-- Tries the grid of `count` digits: the nearer neighbour of the value that lies inside the
interval, an exact tie going to the even one. -/
def Rounding.onGrid (r : Rounding) (point : Int) (count : Nat) : Option Nat :=
  let shift := point - Int.ofNat count
  let unit := r.den * Nat.pow 10 shift.toNat
  let scale := Nat.pow 10 (-shift).toNat
  let value := r.num * scale
  let low := value / unit
  let high := low + 1
  let below := value - low * unit
  let above := high * unit - value
  let inside := fun (distance reach : Nat) =>
    decide (distance < reach) || (r.closed && decide (distance = reach))
  let lowIn := inside below (r.down * scale) && decide (0 < low)
  let highIn := inside above (r.up * scale)
  if lowIn && highIn then
    some (if below < above then low else if above < below then high
      else if low % 2 = 0 then low else high)
  else if lowIn then some low
  else if highIn then some high
  else none

/-- The first grid with a hit among those of `count`, `count + 1`, … digits, with its count. -/
def Rounding.firstHit (r : Rounding) (point : Int) : Nat → Nat → Nat × Nat
  | 0, count => (count, (r.onGrid point count).getD 0)
  | more + 1, count =>
    match r.onGrid point count with
    | some n => (count, n)
    | none => r.firstHit point more (count + 1)

/-- The shortest digits of a positive `m · 2 ^ e`; seventeen always suffice. -/
def shortestDigits (m : Nat) (e : Int) : Digits :=
  let r := Rounding.ofDyadic m e
  let point := decimalPoint r.num r.den
  let (count, hit) := r.firstHit point 16 1
  let found := digits hit
  { significant := (found.reverse.dropWhile (· = '0')).reverse
    point := point + (Int.ofNat found.length - Int.ofNat count) }

/-- How a shortest decimal is laid out: positional where the point lies within the given range of
places, else with an exponent of at least two digits. -/
structure Layout where
  firstPositional : Int
  lastPositional : Int

/-- Numbers in messages are positional from `0.0001` up to sixteen places before the point. -/
def messageLayout : Layout := ⟨-3, 16⟩

def Digits.text (layout : Layout) (d : Digits) : String :=
  let count := Int.ofNat d.significant.length
  if layout.firstPositional ≤ d.point ∧ d.point ≤ layout.lastPositional then
    if d.point ≤ 0 then
      String.ofList ('0' :: '.' :: (List.replicate (-d.point).toNat '0' ++ d.significant))
    else if count ≤ d.point then
      String.ofList (d.significant ++ List.replicate (d.point - count).toNat '0' ++ ['.', '0'])
    else
      String.ofList (d.significant.take d.point.toNat ++ '.' :: d.significant.drop d.point.toNat)
  else
    let exponent := d.point - 1
    let mantissa := match d.significant with
      | [] => []
      | [c] => [c]
      | c :: rest => c :: '.' :: rest
    let size := digits exponent.natAbs
    String.ofList (mantissa ++ 'e' :: (if exponent < 0 then '-' else '+') ::
      (if size.length < 2 then '0' :: size else size))

def shortest (x : Float) : String :=
  match Exact.ofBinary x with
  | .finite negative 0 _ => if negative then "-0.0" else "0.0"
  | .finite negative m e =>
    (if negative then "-" else "") ++ (shortestDigits m e).text messageLayout
  | special => special.specialText

end CapabilityAtlas.Numeral
