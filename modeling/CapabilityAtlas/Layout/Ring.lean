import CapabilityAtlas.Geometry.Point
import CapabilityAtlas.Hierarchy.Build
import CapabilityAtlas.Keyed
import CapabilityAtlas.Scalar
import CapabilityAtlas.Settings.Default

set_option autoImplicit false
set_option relaxedAutoImplicit false

/-!
Arcs on a circle. Every entity gets an arc of the same width; a padding follows each arc and a gap
each group, if there are several. Spacing that leaves no room is dropped. Sizes of groups are whole
numbers; a negative one has no entities and counts against the others.
-/

namespace CapabilityAtlas.Layout

structure Arc (α : Type) where
  start : α
  stop : α
  deriving DecidableEq, Repr

/-- The spacing of arcs: after every arc, and in addition after every group. -/
structure Spacing (α : Type) where
  padding : α
  gap : α

def entityCount : List Int → Int
  | [] => 0
  | size :: rest => size + entityCount rest

def gapCount (sizes : List Int) : Nat := if sizes.length > 1 then sizes.length else 0

def slots (sizes : List Int) : List (Nat × Nat) :=
  (sizes.zipIdx.flatMap (fun group => List.replicate group.1.toNat group.2)).zipIdx.map
    (fun slot => (slot.2, slot.1))

variable {α : Type} [Add α] [Sub α] [Mul α] [Div α] [NatCast α]

/-- What remains of a full turn after the spacing. -/
def room (turn : α) (sizes : List Int) (spacing : Spacing α) : α :=
  turn - spacing.padding * Scalar.ofInt (entityCount sizes) -
    spacing.gap * ((gapCount sizes : Nat) : α)

def arcsOfWidth (sizes : List Int) (spacing : Spacing α) (width : α) : List (Arc α) :=
  (slots sizes).map (fun slot =>
    let start := (slot.1 : α) * (width + spacing.padding) + (slot.2 : α) * spacing.gap
    { start := start, stop := start + width })

def arcs [LE α] [DecidableLE α] (turn : α) (sizes : List Int) (spacing : Spacing α) :
    List (Arc α) :=
  if entityCount sizes = 0 then []
  else if room turn sizes spacing ≤ ((0 : Nat) : α) then
    arcsOfWidth sizes { padding := ((0 : Nat) : α), gap := ((0 : Nat) : α) }
      (turn / Scalar.ofInt (entityCount sizes))
  else arcsOfWidth sizes spacing (room turn sizes spacing / Scalar.ofInt (entityCount sizes))

def fullTurn [Circular α] : α := ((2 : Nat) : α) * Circular.pi

def Arc.middle (a : Arc α) : α := (a.start + a.stop) / ((2 : Nat) : α)

end CapabilityAtlas.Layout

/-!
The two rings of a radial layout. Capabilities lie on the inner ring in the order of their tree,
tools on the outer one, grouped by server; each takes an arc whose thickness grows with its rank
and use.
-/

namespace CapabilityAtlas.Layout

open CapabilityAtlas.Geometry CapabilityAtlas.Hierarchy

structure RadialConfig (α : Type) where
  width : α
  height : α
  toolRadius : Option α
  capabilityRadius : Option α
  style : RadialStyle α
  includeOrphans : Bool

def RadialConfig.check (c : RadialConfig Float) : Except Fault Unit :=
  if c.width ≤ 0 ∨ c.height ≤ 0 then
    .error (.canvasSize c.width c.height)
  else if c.style.toolPadding < 0 ∨ c.style.serverGap < 0 ∨ c.style.capabilityPadding < 0 then
    .error .negativeSpacing
  else .ok ()

inductive RingItem
  | capability (value : Capability) (level : Nat)
  | tool (value : Tool)

namespace RingItem

def id : RingItem → String
  | capability c _ => c.id
  | tool t => t.id

def name : RingItem → String
  | capability c _ => c.name
  | tool t => t.name

def level : RingItem → Nat
  | capability _ level => level
  | tool _ => 0

def group : RingItem → Option String
  | capability _ _ => none
  | tool t => some t.server

end RingItem

structure RingNode (α : Type) where
  item : RingItem
  point : Point α
  angle : α
  radius : α
  arc : Arc α
  thickness : α

namespace RingNode

variable {α : Type}

def id (n : RingNode α) : String := n.item.id

def innerRadius [NatCast α] [Sub α] [Div α] (n : RingNode α) : α :=
  n.radius - n.thickness / ((2 : Nat) : α)

def outerRadius [NatCast α] [Add α] [Div α] (n : RingNode α) : α :=
  n.radius + n.thickness / ((2 : Nat) : α)

end RingNode

structure Rings (α : Type) where
  center : Point α
  toolRadius : α
  capabilityRadius : α
  capabilities : List (RingNode α)
  tools : List (RingNode α)

def Rings.nodes {α : Type} (r : Rings α) : List (RingNode α) := r.capabilities ++ r.tools

variable {α : Type} [NatCast α] [LT α] [LE α] [DecidableLT α] [DecidableLE α]
  [Add α] [Sub α] [Mul α] [Div α]

/-- A contribution that grows with a measure, between nothing and a limit. -/
def contribution (measure weight limit : α) : α :=
  Scalar.smaller (Scalar.larger measure ((0 : Nat) : α) * weight) limit

def toolThickness (pagerank : α) : α :=
  ((6 : Nat) : α) + contribution pagerank ((25 : Nat) : α) ((10 : Nat) : α)

def capabilityThickness (pagerank usageCount : α) : α :=
  ((10 : Nat) : α) + contribution pagerank ((30 : Nat) : α) ((8 : Nat) : α) +
    contribution usageCount (Scalar.ratio 3 10) ((6 : Nat) : α)

def RingItem.thickness [OfBinary α] : RingItem → α
  | .capability c _ =>
    capabilityThickness (OfBinary.ofBinary c.pagerank) (OfBinary.ofBinary c.usageCount)
  | .tool t => toolThickness (OfBinary.ofBinary t.pagerank)

/-- The rotation of a label in degrees, and whether the label ends at its arc; labels on the left
half are turned around. -/
def labelRotation [Circular α] (angle : α) : α × Bool :=
  let degrees := angle * (((180 : Nat) : α) / Circular.pi) - ((90 : Nat) : α)
  if Circular.pi / ((2 : Nat) : α) < angle ∧
      angle < ((3 : Nat) : α) * Circular.pi / ((2 : Nat) : α) then
    (degrees + ((180 : Nat) : α), true)
  else (degrees, false)

/-- The radius of the outer ring: as large as the canvas and the margin admit. -/
def RadialConfig.outerRadius (c : RadialConfig α) : α :=
  c.toolRadius.getD (Scalar.larger
    (Scalar.smaller c.width c.height / ((2 : Nat) : α) - c.style.margin) c.style.minRadius)

def RadialConfig.innerRadius (c : RadialConfig α) : α :=
  c.capabilityRadius.getD (c.outerRadius * c.style.capabilityRatio)

def polar [Circular α] (center : Point α) (angle radius : α) : Point α :=
  ⟨center.x + radius * Circular.sin angle, center.y - radius * Circular.cos angle⟩

def ringNode [Circular α] [OfBinary α] (center : Point α) (radius : α) (item : RingItem)
    (arc : Arc α) : RingNode α where
  item := item
  point := polar center arc.middle radius
  angle := arc.middle
  radius := radius
  arc := arc
  thickness := item.thickness

def ring [Circular α] [OfBinary α] (center : Point α) (radius : α) (spacing : Spacing α)
    (groups : List (List RingItem)) : List (RingNode α) :=
  List.zipWith (ringNode center radius) groups.flatten
    (arcs fullTurn (groups.map (fun items => Int.ofNat items.length)) spacing)

def RadialConfig.center (c : RadialConfig α) : Point α :=
  ⟨c.width / ((2 : Nat) : α), c.height / ((2 : Nat) : α)⟩

def RadialConfig.rings [Circular α] [OfBinary α] (c : RadialConfig α)
    (capabilities : List RingItem) (tools : List (List RingItem)) : Rings α where
  center := c.center
  toolRadius := c.outerRadius
  capabilityRadius := c.innerRadius
  capabilities := ring c.center c.innerRadius
    { padding := c.style.capabilityPadding, gap := ((0 : Nat) : α) } [capabilities]
  tools := ring c.center c.outerRadius
    { padding := c.style.toolPadding, gap := c.style.serverGap } tools

end CapabilityAtlas.Layout
