import CapabilityAtlas.Numeral.Binary

set_option autoImplicit false
set_option relaxedAutoImplicit false

/-!
Decimal notation of whole numbers and of numbers with a fixed count of fractional places. The
fixed form writes every place; the compact form drops the zeros that end the fraction, and the
point with them.
-/

namespace CapabilityAtlas.Numeral

def digit (n : Nat) : Char := Char.ofNat (48 + n % 10)

def digits (n : Nat) : List Char :=
  if n < 10 then [digit n] else digits (n / 10) ++ [digit n]

def paddedDigits : Nat → Nat → List Char
  | 0, _ => []
  | places + 1, n => paddedDigits places (n / 10) ++ [digit n]

def integerText (n : Int) : String :=
  String.ofList (if n < 0 then '-' :: digits n.natAbs else digits n.natAbs)

def paddedText (width n : Nat) : String := String.ofList (paddedDigits width n)

/-- The number `n · 10 ^ -places` with all its places; zero carries no sign. -/
def fixedText (places : Nat) (n : Int) : String :=
  let whole := digits (n.natAbs / Nat.pow 10 places)
  let fraction := if places = 0 then [] else '.' :: paddedDigits places n.natAbs
  String.ofList ((if n < 0 then ['-'] else []) ++ whole ++ fraction)

/-- The number `n · 10 ^ -places` without the zeros that would end its fraction. -/
def compactDigits (places : Nat) (n : Int) : List Char :=
  let whole := digits (n.natAbs / Nat.pow 10 places)
  let fraction := ((paddedDigits places n.natAbs).reverse.dropWhile (· = '0')).reverse
  (if n < 0 then ['-'] else []) ++ whole ++ (if fraction = [] then [] else '.' :: fraction)

def Exact.specialText : Exact → String
  | .infinite true => "-inf"
  | .infinite false => "inf"
  | _ => "nan"

def fixed (places : Nat) (x : Float) : String :=
  match (Exact.ofBinary x).rounded? places with
  | some n => fixedText places n
  | none => (Exact.ofBinary x).specialText

def compact (places : Nat) (x : Float) : String :=
  match (Exact.ofBinary x).rounded? places with
  | some n => String.ofList (compactDigits places n)
  | none => (Exact.ofBinary x).specialText

theorem paddedDigits_length (places n : Nat) : (paddedDigits places n).length = places := by
  induction places generalizing n with
  | zero => rfl
  | succ places ih => simp [paddedDigits, ih]

theorem digits_ne_nil (n : Nat) : digits n ≠ [] := by
  unfold digits
  split <;> simp

/-!
Compact decimals as they are cut from fixed ones. First every place is written, with a sign even if
all of them are zero. Then the zeros at the end are cut off, and the point if nothing is left behind
it.
-/

/-- A number in units of `10 ^ -places` with all its places; a negative zero keeps its sign. -/
def placedDigits (places : Nat) (negative : Bool) (magnitude : Nat) : List Char :=
  (if negative then ['-'] else []) ++ digits (magnitude / Nat.pow 10 places) ++
    '.' :: paddedDigits places magnitude

def cutEnd (c : Char) (text : List Char) : List Char := (text.reverse.dropWhile (· = c)).reverse

/-- A number in units of `10 ^ -places` as it is cut; nothing and a negative zero are zero. -/
def trimmedDigits (places : Nat) (negative : Bool) (magnitude : Nat) : List Char :=
  let text := cutEnd '.' (cutEnd '0' (placedDigits places negative magnitude))
  if text = ['-', '0'] ∨ text = [] then ['0'] else text

def trimmed (places : Nat) (x : Float) : String :=
  match Exact.ofBinary x with
  | .finite negative mantissa exponent =>
    String.ofList (trimmedDigits places negative (roundedMagnitude places mantissa exponent))
  | special => special.specialText

end CapabilityAtlas.Numeral
