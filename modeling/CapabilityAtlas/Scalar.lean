set_option autoImplicit false
set_option relaxedAutoImplicit false

/-!
What geometry and layout need of their numbers. Every formula is written once over an arbitrary
type with the four operations, an order and the natural numbers; binary floating point is the
instance that runs, and the exact fields are the instances that are reasoned about.
-/

namespace CapabilityAtlas

instance binaryNatCast : NatCast Float := ⟨Float.ofNat⟩

/-- Numbers with a length of the vector of two coordinates. -/
class Length (α : Type) where
  hypot : α → α → α

/-- Numbers with the functions of a circle; `angle y x` is the direction of the point `(x, y)`. -/
class Circular (α : Type) where
  sin : α → α
  cos : α → α
  angle : α → α → α
  pi : α

/-- Numbers into which the measured binary values of a graph embed. -/
class OfBinary (α : Type) where
  ofBinary : Float → α

namespace Scalar

variable {α : Type}

/-- The smaller of two numbers; the first unless the second is strictly below it. -/
def smaller [LT α] [DecidableLT α] (a b : α) : α := if b < a then b else a

/-- The larger of two numbers; the first unless the second is strictly above it. -/
def larger [LT α] [DecidableLT α] (a b : α) : α := if a < b then b else a

/-- A number that is comparable with itself, as all are except an undefined one. -/
def defined [LE α] [DecidableLE α] (a : α) : Bool := decide (a ≤ a)

def same [LE α] [DecidableLE α] (a b : α) : Bool := decide (a ≤ b) && decide (b ≤ a)

def ratio [NatCast α] [Div α] (n d : Nat) : α := (n : α) / (d : α)

def ofInt [NatCast α] [Sub α] (n : Int) : α := (n.toNat : α) - ((-n).toNat : α)

end Scalar

/-- The length is taken after division by the larger coordinate, so squares do not overflow. -/
private def binaryLength (x y : Float) : Float :=
  let m := Scalar.larger x.abs y.abs
  if m == 0 then m
  else if x.abs == 1 / 0 || y.abs == 1 / 0 then 1 / 0
  else m * ((x / m) * (x / m) + (y / m) * (y / m)).sqrt

instance binaryLengthOf : Length Float := ⟨binaryLength⟩

instance binaryCircular : Circular Float where
  sin := Float.sin
  cos := Float.cos
  angle := Float.atan2
  pi := 3.141592653589793

instance binaryOfBinary : OfBinary Float := ⟨id⟩

end CapabilityAtlas
