import CapabilityAtlas.Fault
import CapabilityAtlas.Geometry.Point

set_option autoImplicit false
set_option relaxedAutoImplicit false

/-!
Convex hulls. The points are sorted and swept twice, once in either direction; each sweep keeps a
chain that only turns left, and the two chains together run counter-clockwise around the points.
-/

namespace CapabilityAtlas.Geometry

variable {α : Type}

/-- Twice the area of the triangle of three points, positive if they turn left. -/
def turn [Sub α] [Mul α] (o a b : Point α) : α :=
  (a.x - o.x) * (b.y - o.y) - (a.y - o.y) * (b.x - o.x)

variable [Sub α] [Mul α] [NatCast α] [LT α] [LE α] [DecidableLT α] [DecidableLE α]

/-- Extends a chain, kept with its newest point first, after dropping the points at which it would
not turn left. -/
def extend (p : Point α) : List (Point α) → List (Point α)
  | b :: a :: rest =>
    if turn a b p ≤ ((0 : Nat) : α) then extend p (a :: rest) else p :: b :: a :: rest
  | chain => p :: chain

/-- The chain that a sweep over some points keeps, without its last point. -/
def openChain (points : List (Point α)) : List (Point α) :=
  (points.foldl (fun chain p => extend p chain) []).tail.reverse

def ends (points : List (Point α)) : List (Point α) :=
  points.head?.toList ++ points.getLast?.toList

def hullOfSorted (points : List (Point α)) : List (Point α) :=
  if points.length < 3 then points
  else
    let hull := openChain points ++ openChain points.reverse
    if hull.length < 3 then ends points else hull

/-- The convex hull of some points, counter-clockwise from the least point. Points on a line give
the two ends, and fewer than three points are their own hull. -/
def convexHull (points : List (Point α)) : List (Point α) := hullOfSorted (Point.sorted points)

end CapabilityAtlas.Geometry

/-!
Polygons moved outward. Every side of a counter-clockwise polygon moves along its outward normal;
where two moved sides would meet too far away the corner is cut off.
-/

namespace CapabilityAtlas.Geometry

variable {α : Type}

def sideLength [NatCast α] [Length α] [LE α] [DecidableLE α] (side : Point α) : α :=
  if Scalar.same side.length ((0 : Nat) : α) then ((1 : Nat) : α) else side.length

def normal [Neg α] [Div α] [NatCast α] [Length α] [LE α] [DecidableLE α] (side : Point α) :
    Point α :=
  Point.divide ⟨side.y, -side.x⟩ (sideLength side)

def normals [Sub α] [Neg α] [Div α] [NatCast α] [Length α] [LE α] [DecidableLE α]
    (polygon : List (Point α)) : List (Point α) :=
  (sides polygon).map (fun side => normal (side.2.sub side.1))

/-- The longest miter, in units of the distance by which the sides move. -/
def miterLimit [NatCast α] : α := ((4 : Nat) : α)

/-- The vector to the meeting point of two sides moved by one unit, unless the point is undefined
or too far away. -/
def miter? [Add α] [Mul α] [Div α] [NatCast α] [Length α] [LT α] [DecidableLT α]
    (before after : Point α) : Option (Point α) :=
  let denominator := ((1 : Nat) : α) + before.dot after
  if Scalar.ratio 1 1000000000 < denominator then
    let miter := (before.add after).divide denominator
    if miterLimit < miter.length then none else some miter
  else none

def corner [Add α] [Mul α] [Div α] [NatCast α] [Length α] [LT α] [DecidableLT α]
    (distance : α) (vertex before after : Point α) : List (Point α) :=
  match miter? before after with
  | some miter => [vertex.add (miter.scale distance)]
  | none => [vertex.add (before.scale distance), vertex.add (after.scale distance)]

def expandHull [Add α] [Sub α] [Mul α] [Div α] [Neg α] [NatCast α] [Length α] [LT α] [LE α]
    [DecidableLT α] [DecidableLE α] (distance : α) (polygon : List (Point α)) : List (Point α) :=
  if polygon.length < 3 then polygon
  else if distance ≤ ((0 : Nat) : α) then polygon
  else
    let after := normals polygon
    ((polygon.zip (predecessors after)).zip after).flatMap (fun corners =>
      corner distance corners.1.1 corners.1.2 corners.2)

end CapabilityAtlas.Geometry

/-!
Capsules: two half circles around the ends of a segment, sampled at equal angles.
-/

namespace CapabilityAtlas.Geometry

variable {α : Type} [Add α] [Sub α] [Mul α] [Div α] [Neg α] [NatCast α] [Circular α]

def quarterTurn : α := Circular.pi / ((2 : Nat) : α)

/-- The angle of a sample of a half circle, from a quarter turn before its axis to one after. -/
def halfCircleAngle (segments i : Nat) : α :=
  if i = 0 then -quarterTurn
  else if i = segments then quarterTurn
  else (i : α) * (Circular.pi / (segments : α)) + -quarterTurn

def halfCircle (center : Point α) (radius axis : α) (segments : Nat) : List (Point α) :=
  (List.range (segments + 1)).map (fun i =>
    let angle := axis + halfCircleAngle segments i
    center.add (Point.scale radius ⟨Circular.cos angle, Circular.sin angle⟩))

def heading [Length α] [LT α] [DecidableLT α] (a b : Point α) : α :=
  let way := b.sub a
  if ((0 : Nat) : α) < way.length then Circular.angle way.y way.x else ((0 : Nat) : α)

variable [Length α] [LT α] [LE α] [DecidableLT α] [DecidableLE α]

/-- The capsule of a radius around a segment, counter-clockwise; without a radius the segment. -/
def capsule (radius : α) (segments : Nat) (a b : Point α) : List (Point α) :=
  if radius ≤ ((0 : Nat) : α) then [a, b]
  else
    halfCircle b radius (heading a b) segments ++
      halfCircle a radius (heading a b + Circular.pi) segments

/-- The capsule with a count of segments that may be out of range; one less than none leaves no
sample at all. -/
def capsule? (radius : α) (segments : Int) (a b : Point α) : Except Fault (List (Point α)) :=
  if radius ≤ ((0 : Nat) : α) then .ok [a, b]
  else if segments < -1 then .error .negativeCount
  else if segments = -1 then .ok []
  else .ok (capsule radius segments.toNat a b)

end CapabilityAtlas.Geometry

/-!
Smooth outlines: a closed cubic spline through the vertices of a polygon, the tangent at a vertex
being parallel to the line between its neighbors.
-/

namespace CapabilityAtlas.Geometry

variable {α : Type} [Add α] [Sub α] [Mul α] [Div α] [Neg α] [NatCast α]

def splineValue (p0 p1 p2 p3 t : α) : α :=
  let a := ((2 : Nat) : α) * p1
  let b := (p2 - p0) * t
  let c := (((2 : Nat) : α) * p0 - ((5 : Nat) : α) * p1 + ((4 : Nat) : α) * p2 - p3) * (t * t)
  let d := (-p0 + ((3 : Nat) : α) * p1 - ((3 : Nat) : α) * p2 + p3) * (t * t * t)
  Scalar.ratio 1 2 * (a + b + c + d)

def splinePoint (p0 p1 p2 p3 : Point α) (t : α) : Point α :=
  ⟨splineValue p0.x p1.x p2.x p3.x t, splineValue p0.y p1.y p2.y p3.y t⟩

/-- The samples of the spline between two vertices, the second vertex left out. -/
def splineArc (samples : Nat) (p0 p1 p2 p3 : Point α) : List (Point α) :=
  (List.range samples).map (fun (i : Nat) =>
    splinePoint p0 p1 p2 p3 ((i : α) * Scalar.ratio 1 samples))

def controls (polygon : List (Point α)) : List (Point α × Point α × Point α × Point α) :=
  (predecessors polygon).zip
    (polygon.zip ((successors polygon).zip (successors (successors polygon))))

/-- The closed spline through the vertices of a polygon, with at least one sample a side. -/
def smoothHull (samples : Int) (polygon : List (Point α)) : List (Point α) :=
  if polygon.length < 3 then polygon
  else (controls polygon).flatMap (fun (p0, p1, p2, p3) =>
    splineArc (max 1 samples).toNat p0 p1 p2 p3)

end CapabilityAtlas.Geometry

/-!
Outlines around clusters: the convex hull of the members' positions, moved outward by a padding and
smoothed on demand. Members on one line are enclosed in a capsule.
-/

namespace CapabilityAtlas.Geometry

def capsuleSegments : Nat := 8

variable {α : Type} [Add α] [Sub α] [Mul α] [Div α] [Neg α] [NatCast α] [LT α] [LE α]
  [DecidableLT α] [DecidableLE α] [Length α] [Circular α]

def padHull (padding : α) (hull : List (Point α)) : List (Point α) :=
  if hull.length < 3 then
    match hull.head?, hull.getLast? with
    | some a, some b => capsule padding capsuleSegments a b
    | _, _ => []
  else expandHull padding hull

structure OutlineStyle (α : Type) where
  padding : α
  smooth : Bool
  samples : Int

/-- The outline around some points; a single point has none. -/
def outline (style : OutlineStyle α) (points : List (Point α)) : List (Point α) :=
  if (Point.distinct points).length < 2 then []
  else
    let padded := padHull style.padding (convexHull points)
    if style.smooth then smoothHull style.samples padded else padded

end CapabilityAtlas.Geometry
