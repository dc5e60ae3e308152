import CapabilityAtlas.Scalar

set_option autoImplicit false
set_option relaxedAutoImplicit false

/-!
Points of the plane, compared coordinate by coordinate, the first one deciding first.
-/

namespace CapabilityAtlas.Geometry

structure Point (α : Type) where
  x : α
  y : α
  deriving DecidableEq, Repr

namespace Point

variable {α : Type}

def ofPair (p : α × α) : Point α := ⟨p.1, p.2⟩

def add [Add α] (p q : Point α) : Point α := ⟨p.x + q.x, p.y + q.y⟩

def sub [Sub α] (p q : Point α) : Point α := ⟨p.x - q.x, p.y - q.y⟩

def scale [Mul α] (c : α) (p : Point α) : Point α := ⟨c * p.x, c * p.y⟩

def divide [Div α] (p : Point α) (c : α) : Point α := ⟨p.x / c, p.y / c⟩

def dot [Add α] [Mul α] (p q : Point α) : α := p.x * q.x + p.y * q.y

def length [Length α] (p : Point α) : α := Length.hypot p.x p.y

section Order

variable [LT α] [LE α] [DecidableLT α] [DecidableLE α]

def same (p q : Point α) : Bool := Scalar.same p.x q.x && Scalar.same p.y q.y

def notAfter (p q : Point α) : Bool := p.x < q.x || (Scalar.same p.x q.x && p.y ≤ q.y)

def distinct (points : List (Point α)) : List (Point α) :=
  points.foldl (fun seen p => if seen.any (same p) then seen else seen ++ [p]) []

def sorted (points : List (Point α)) : List (Point α) := (distinct points).mergeSort notAfter

end Order

end Point

def successors {β : Type} (vertices : List β) : List β := vertices.rotateLeft 1

def predecessors {β : Type} (vertices : List β) : List β := vertices.rotateRight 1

def sides {β : Type} (vertices : List β) : List (β × β) := vertices.zip (successors vertices)

end CapabilityAtlas.Geometry
