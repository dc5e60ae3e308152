import CapabilityAtlas.Text.Character

set_option autoImplicit false
set_option relaxedAutoImplicit false

/-!
Reading numbers from text. Blanks around the number are ignored, digits of every script count,
and an underscore may stand between two digits. An integer is a sign and digits; a binary64 may
have a fraction and an exponent, or be spelled as an infinity or as undefined.
-/

namespace CapabilityAtlas.Numeral

open CapabilityAtlas.Text

/-- The most digits that an integer text may have. -/
def digitLimit : Nat := 4300

/-- The blanks that may surround a number once the text is in ASCII. -/
def isNumberBlank (c : Char) : Bool :=
  c == ' ' || (decide ('\t'.toNat ≤ c.toNat) && decide (c.toNat ≤ '\r'.toNat))

/-- The ASCII character for which a character of a number stands; `?` for one that has none. -/
def asciiForm (c : Char) : Char :=
  if c.toNat < 0x7F then c
  else if isBlank c then ' '
  else match DecimalDigit.value? c with
    | some n => Char.ofNat (48 + n)
    | none => '?'

def numberText (text : String) : List Char := trimBy isNumberBlank (text.toList.map asciiForm)

/-- Removes the underscores between digits; any other underscore is refused. -/
def joinGroups? (before : Char) : List Char → Option (List Char)
  | [] => some []
  | c :: rest =>
    if c = '_' then
      if before.isDigit && (rest.head?.map Char.isDigit).getD false then joinGroups? c rest
      else none
    else (joinGroups? c rest).map (c :: ·)

def splitSign : List Char → Bool × List Char
  | '-' :: rest => (true, rest)
  | '+' :: rest => (false, rest)
  | cs => (false, cs)

def digitsValue (cs : List Char) : Nat := cs.foldl (fun n c => 10 * n + (c.toNat - 48)) 0

def splitDigits (cs : List Char) : List Char × List Char :=
  (cs.takeWhile Char.isDigit, cs.dropWhile Char.isDigit)

def readInt? (text : String) : Option Int := do
  let (negative, body) := splitSign (numberText text)
  let body ← joinGroups? ' ' body
  if body.isEmpty || !body.all Char.isDigit || decide (digitLimit < body.length) then none
  else
    let n := Int.ofNat (digitsValue body)
    pure (if negative then -n else n)

def readExponent? : List Char → Option Int
  | [] => some 0
  | c :: rest =>
    if c = 'e' ∨ c = 'E' then
      let (negative, body) := splitSign rest
      if body.isEmpty || !body.all Char.isDigit then none
      else
        let n := Int.ofNat (digitsValue body)
        some (if negative then -n else n)
    else none

def nearestDecimal (mantissa : Nat) (exponent : Int) : Float :=
  match exponent with
  | .ofNat e => Float.ofScientific mantissa false e
  | .negSucc e => Float.ofScientific mantissa true (e + 1)

def readDecimal? (cs : List Char) : Option Float := do
  let (whole, rest) := splitDigits cs
  let (fraction, rest) := match rest with
    | '.' :: rest => splitDigits rest
    | _ => ([], rest)
  let exponent ← readExponent? rest
  if whole.isEmpty && fraction.isEmpty then none
  else pure (nearestDecimal (digitsValue (whole ++ fraction))
    (exponent - Int.ofNat fraction.length))

def readMagnitude? (cs : List Char) : Option Float :=
  let name := String.ofList (cs.map Char.toLower)
  if name = "inf" ∨ name = "infinity" then some (1 / 0)
  else if name = "nan" then some (0 / 0)
  else readDecimal? cs

def readPlainFloat? (cs : List Char) : Option Float := do
  let (negative, body) := splitSign cs
  let magnitude ← readMagnitude? body
  pure (if negative then -magnitude else magnitude)

def readFloat? (text : String) : Option Float := do
  readPlainFloat? (← joinGroups? ' ' (numberText text))

end CapabilityAtlas.Numeral
