import CapabilityAtlas.Geometry.Point
import CapabilityAtlas.Numeral.Decimal

set_option autoImplicit false
set_option relaxedAutoImplicit false

/-!
Curves along a control polygon. The polygon is first pulled towards the chord between its ends, as
far as a tension between zero and one says, and then drawn as a uniform cubic spline.
-/

namespace CapabilityAtlas.Geometry

inductive Command (α : Type)
  | move (target : Point α)
  | line (target : Point α)
  | curve (first second target : Point α)
  | close
  deriving DecidableEq, Repr

variable {α : Type}

def closedOutline : List (Point α) → List (Command α)
  | [] => []
  | p :: rest => .move p :: rest.map .line ++ [.close]

def clampUnit [NatCast α] [LT α] [DecidableLT α] (v : α) : α :=
  Scalar.smaller ((1 : Nat) : α) (Scalar.larger ((0 : Nat) : α) v)

/-- A tension brought between zero and one; an undefined one counts as one. -/
def clampTension [NatCast α] [LT α] [LE α] [DecidableLT α] [DecidableLE α] (tension : α) : α :=
  if Scalar.defined tension then clampUnit tension else ((1 : Nat) : α)

variable [Add α] [Mul α] [Div α] [NatCast α]

/-- A coordinate pulled towards the chord that starts at `origin` and spans `way`, at the fraction
`t` of which it belongs. -/
def pull [Sub α] (beta origin way t v : α) : α :=
  beta * v + (((1 : Nat) : α) - beta) * (origin + t * way)

/-- The control polygon pulled towards the chord between its ends; `beta` is the share of its own
shape that it keeps. -/
def straighten [Sub α] (beta : α) (points : List (Point α)) : List (Point α) :=
  match points.head?, points.getLast? with
  | some first, some last =>
    if points.length < 2 then points
    else points.mapIdx (fun i p =>
      let t := Scalar.ratio i (points.length - 1)
      ⟨pull beta first.x (last.x - first.x) t p.x, pull beta first.y (last.y - first.y) t p.y⟩)
  | _, _ => points

def weigh (m n total : Nat) (p q : Point α) : Point α :=
  ⟨((m : α) * p.x + (n : α) * q.x) / (total : α), ((m : α) * p.y + (n : α) * q.y) / (total : α)⟩

def splineCurve (p q r : Point α) : Command α :=
  .curve (weigh 2 1 3 p q) (weigh 1 2 3 p q)
    ⟨(p.x + ((4 : Nat) : α) * q.x + r.x) / ((6 : Nat) : α),
      (p.y + ((4 : Nat) : α) * q.y + r.y) / ((6 : Nat) : α)⟩

/-- The spline from the curve of `p` and `q` on, up to the last control point. -/
def splineFrom (p q : Point α) : List (Point α) → List (Command α)
  | [] => [splineCurve p q q, .line q]
  | r :: rest => splineCurve p q r :: splineFrom q r rest

def spline : List (Point α) → List (Command α)
  | [] => []
  | [p] => [.move p]
  | [p, q] => [.move p, .line q]
  | p :: q :: r :: rest => .move p :: .line (weigh 5 1 6 p q) :: splineFrom p q (r :: rest)

end CapabilityAtlas.Geometry

/-!
A spline as a pen draws it, one control point after the other. The pen is put down at the first
control point and waits for two more; from then on every control point ends a curve. The pen keeps
the last two control points, and once there are no more it finishes the last curve at their end.
-/

namespace CapabilityAtlas.Geometry

inductive Stage (α : Type)
  | blank
  | placed (p : Point α)
  | aimed (p q : Point α)
  | bending (p q : Point α)

structure Sketch (α : Type) where
  stage : Stage α
  commands : List (Command α)

variable {α : Type} [Add α] [Mul α] [Div α] [NatCast α]

namespace Sketch

def next (s : Sketch α) (r : Point α) : Sketch α :=
  match s.stage with
  | .blank => { stage := .placed r, commands := s.commands ++ [.move r] }
  | .placed p => { stage := .aimed p r, commands := s.commands }
  | .aimed p q =>
    { stage := .bending q r
      commands := s.commands ++ [.line (weigh 5 1 6 p q), splineCurve p q r] }
  | .bending p q =>
    { stage := .bending q r, commands := s.commands ++ [splineCurve p q r] }

def finish (s : Sketch α) : List (Command α) :=
  match s.stage with
  | .blank | .placed _ => s.commands
  | .aimed _ q => s.commands ++ [.line q]
  | .bending p q => s.commands ++ [splineCurve p q q, .line q]

end Sketch

/-- The spline of a control polygon, point by point. -/
def sketch (points : List (Point α)) : List (Command α) :=
  (points.foldl Sketch.next { stage := .blank, commands := [] }).finish

end CapabilityAtlas.Geometry

/-!
Drawings as text: one letter a command, coordinates with at most three decimals.
-/

namespace CapabilityAtlas.Geometry

open CapabilityAtlas.Numeral

def coordinatePlaces : Nat := 3

def coordinateText (x : Float) : String := compact coordinatePlaces x

def pointText (p : Point Float) : String := coordinateText p.x ++ "," ++ coordinateText p.y

def Command.text : Command Float → String
  | .move p => "M" ++ pointText p
  | .line p => "L" ++ pointText p
  | .curve a b p => "C" ++ pointText a ++ "," ++ pointText b ++ "," ++ pointText p
  | .close => "Z"

def drawingText (commands : List (Command Float)) : String :=
  String.join (commands.map Command.text)

def splineText (points : List (Point Float)) : String := drawingText (spline points)

def polygonText (points : List (Point Float)) : String := drawingText (closedOutline points)

end CapabilityAtlas.Geometry
