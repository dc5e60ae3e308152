import CapabilityAtlas.Geometry.Component
import CapabilityAtlas.Geometry.Hull
import CapabilityAtlas.Geometry.Point

set_option autoImplicit false
set_option relaxedAutoImplicit false

/-!
Whether segments touch, whether a polygon contains a point, and whether two polygons overlap.
-/

namespace CapabilityAtlas.Geometry

variable {α : Type} [Sub α] [Mul α] [NatCast α] [LT α] [LE α] [DecidableLT α] [DecidableLE α]

def lineSide (a b p : Point α) : α := (p.x - a.x) * (b.y - a.y) - (b.x - a.x) * (p.y - a.y)

def isZero (d : α) : Bool := Scalar.same d ((0 : Nat) : α)

def opposite (d e : α) : Bool :=
  (((0 : Nat) : α) < d && e < ((0 : Nat) : α)) || (d < ((0 : Nat) : α) && ((0 : Nat) : α) < e)

def between (a b v : α) : Bool := Scalar.smaller a b ≤ v && v ≤ Scalar.larger a b

def inBox (a b p : Point α) : Bool := between a.x b.x p.x && between a.y b.y p.y

def segmentsIntersect (p1 p2 p3 p4 : Point α) : Bool :=
  let d1 := lineSide p3 p4 p1
  let d2 := lineSide p3 p4 p2
  let d3 := lineSide p1 p2 p3
  let d4 := lineSide p1 p2 p4
  (opposite d1 d2 && opposite d3 d4) ||
    (isZero d1 && inBox p3 p4 p1) || (isZero d2 && inBox p3 p4 p2) ||
    (isZero d3 && inBox p1 p2 p3) || (isZero d4 && inBox p1 p2 p4)

variable [Add α] [Div α]

/-- Whether the ray from a point to the right crosses the side from `a` to `b`; a side has its lower
end but not its upper one. -/
def rayCrosses (p a b : Point α) : Bool :=
  (decide (p.y < b.y) != decide (p.y < a.y)) &&
    p.x < (a.x - b.x) * (p.y - b.y) / (a.y - b.y) + b.x

/-- Whether a point is inside a polygon: the ray from it crosses an odd number of sides. -/
def pointInPolygon (polygon : List (Point α)) (p : Point α) : Bool :=
  if polygon.length < 3 then false
  else ((predecessors polygon).zip polygon).foldl
    (fun inside side => inside != rayCrosses p side.1 side.2) false

/-- Whether two polygons of three or more vertices overlap: sides touch, or one polygon contains a
vertex of the other. -/
def hullsIntersect (first second : List (Point α)) : Bool :=
  if first.length < 3 ∨ second.length < 3 then false
  else
    (sides first).any (fun s => (sides second).any (fun t =>
      segmentsIntersect s.1 s.2 t.1 t.2)) ||
    first.any (pointInPolygon second) || second.any (pointInPolygon first)

end CapabilityAtlas.Geometry

/-!
Groups of nodes with the hull that is drawn around them. Groups whose hulls overlap, directly or
through others, are merged into one.
-/

namespace CapabilityAtlas.Geometry

structure HullGroup (α : Type) where
  points : List (Point α)
  color : String
  animated : Bool
  members : List String
  deriving Repr

namespace HullGroup

variable {α : Type} [Sub α] [Mul α] [NatCast α] [LT α] [LE α] [DecidableLT α] [DecidableLE α]

def combine : List (HullGroup α) → Option (HullGroup α)
  | [] => none
  | [group] => some group
  | first :: rest => some {
      points := convexHull ((first :: rest).flatMap HullGroup.points)
      color := first.color
      animated := (first :: rest).any HullGroup.animated
      members := (first :: rest).flatMap HullGroup.members }

variable [Add α] [Div α]

def overlap (groups : List (HullGroup α)) (i j : Nat) : Bool :=
  match groups[i]?, groups[j]? with
  | some first, some second => hullsIntersect first.points second.points
  | _, _ => false

def merge (groups : List (HullGroup α)) : List (HullGroup α) :=
  (components groups.length (overlap groups)).filterMap (fun indices =>
    combine (indices.filterMap (groups[·]?)))

end HullGroup

end CapabilityAtlas.Geometry
