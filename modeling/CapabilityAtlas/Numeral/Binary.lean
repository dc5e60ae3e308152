set_option autoImplicit false
set_option relaxedAutoImplicit false

/-!
The exact value behind a binary64: a sign and a whole number times a power of two. Rounding,
truncation and printing all work on that value in whole-number arithmetic.
-/

namespace CapabilityAtlas.Numeral

/-- What a binary64 stands for: `± mantissa · 2 ^ exponent`, an infinity, or no number. -/
inductive Exact
  | finite (negative : Bool) (mantissa : Nat) (exponent : Int)
  | infinite (negative : Bool)
  | undefined
  deriving DecidableEq, Repr

def Exact.ofBinary (x : Float) : Exact :=
  let bits := x.toBits.toNat
  let negative := decide (Nat.pow 2 63 ≤ bits)
  let scale := bits / Nat.pow 2 52 % Nat.pow 2 11
  let fraction := bits % Nat.pow 2 52
  if scale = 2047 then
    if fraction = 0 then .infinite negative else .undefined
  else if scale = 0 then .finite negative fraction (-1074)
  else .finite negative (Nat.pow 2 52 + fraction) (Int.ofNat scale - 1075)

/-- The quotient of two naturals rounded to the nearest natural, a tie going to the even one. -/
def roundHalfEven (n d : Nat) : Nat :=
  let q := n / d
  let r := n % d
  if 2 * r < d then q else if d < 2 * r then q + 1 else q + q % 2

def signed (negative : Bool) (n : Nat) : Int := if negative then -(n : Int) else n

/-- `mantissa · 2 ^ exponent · 10 ^ places`, rounded half to even. -/
def roundedMagnitude (places mantissa : Nat) (exponent : Int) : Nat :=
  match exponent with
  | .ofNat e => mantissa * Nat.pow 2 e * Nat.pow 10 places
  | .negSucc e => roundHalfEven (mantissa * Nat.pow 10 places) (Nat.pow 2 (e + 1))

def Exact.rounded? (places : Nat) : Exact → Option Int
  | .finite negative m e => some (signed negative (roundedMagnitude places m e))
  | _ => none

def Exact.truncated? : Exact → Option Int
  | .finite negative m (.ofNat e) => some (signed negative (m * Nat.pow 2 e))
  | .finite negative m (.negSucc e) => some (signed negative (m / Nat.pow 2 (e + 1)))
  | _ => none

/-- The binary64 nearest to `mantissa · 2 ^ exponent`. -/
def ofDyadic (mantissa : Nat) (exponent : Int) : Float :=
  match exponent with
  | .ofNat e => Float.ofNat (mantissa * Nat.pow 2 e)
  | .negSucc e => Float.ofScientific (mantissa * Nat.pow 5 (e + 1)) true (e + 1)

def ofInt? (n : Int) : Option Float :=
  let x := Float.ofInt n
  if x.isFinite then some x else none

end CapabilityAtlas.Numeral
