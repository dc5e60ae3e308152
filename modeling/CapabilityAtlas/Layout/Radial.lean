import CapabilityAtlas.Geometry.Drawing
import CapabilityAtlas.Layout.Ring

set_option autoImplicit false
set_option relaxedAutoImplicit false

/-!
The order around the rings: capabilities as their tree is read with siblings sorted by name and id,
tools by server and then by name and id.
-/

namespace CapabilityAtlas.Layout

open CapabilityAtlas.Hierarchy

def sortTrees (trees : List Tree) : List Tree :=
  Order.sortByTexts (fun t => (t.name, t.id)) trees

mutual

def arrange : Tree → Tree
  | .node e ts => .node e (sortTrees (arrangeAll ts))

def arrangeAll : List Tree → List Tree
  | [] => []
  | t :: ts => arrange t :: arrangeAll ts

end

def capabilityOrder (h : Hierarchy) : List Tree := Tree.walkAll (sortTrees (arrangeAll h.roots))

def ringTools (h : Hierarchy) (includeOrphans : Bool) : List Tool :=
  h.placements.map Placement.tool ++ (if includeOrphans then h.orphans else [])

def toolGroups (tools : List Tool) : List (List Tool) :=
  (Order.sortTexts (firstOccurrences (tools.map Tool.server))).map (fun server =>
    Order.sortByTexts (fun t => (t.name, t.id)) (tools.filter (fun t => t.server = server)))

def place {α : Type} [NatCast α] [LT α] [LE α] [DecidableLT α] [DecidableLE α] [Add α] [Sub α]
    [Mul α] [Div α] [Circular α] [OfBinary α] (h : Hierarchy) (c : RadialConfig α) : Rings α :=
  c.rings ((capabilityOrder h).map (fun t => .capability t.entry.capability t.entry.level))
    ((toolGroups (ringTools h c.includeOrphans)).map (fun tools => tools.map .tool))

end CapabilityAtlas.Layout

/-!
Routes through the hierarchy. A route climbs from its source to the lowest common ancestor and
descends to its target; where there is no common ancestor it passes the center, which stands for
the root.
-/

namespace CapabilityAtlas.Layout

open CapabilityAtlas.Geometry CapabilityAtlas.Hierarchy

/-- The links that routes follow: from capabilities to their parents, and from tools to the first
of theirs. -/
def routeLinks (h : Hierarchy) : Keyed String :=
  h.parents ++ h.placements.flatMap (fun p => (p.parents.head?.map (p.tool.id, ·)).toList)

def ancestry (links : Keyed String) (id : String) : List String :=
  match _h : links.get? id with
  | some parent => id :: ancestry (links.erase id) parent
  | none => [id]
  termination_by links.length
  decreasing_by exact Keyed.length_erase_lt links ‹_›

/-- The way between two ascents that end in the same ancestor or in the root, which is `none`. -/
def wayBetween (up down : List String) : List (Option String) :=
  match up.find? down.contains with
  | some top =>
    (up.takeWhile (fun id => !down.contains id) ++ [top] ++
      (down.takeWhile (· ≠ top)).reverse).map some
  | none => up.map some ++ [none] ++ (down.map some).reverse

def way (links : Keyed String) (source target : String) : List (Option String) :=
  wayBetween (ancestry links source) (ancestry links target)

variable {α : Type}

def Rings.point? (r : Rings α) (id : String) : Option (Point α) :=
  (r.nodes.find? (fun n => n.id = id)).map RingNode.point

def Rings.stop (r : Rings α) : Option String → Except Fault (Point α)
  | none => .ok r.center
  | some id =>
    match r.point? id with
    | some p => .ok p
    | none => .error .absentKey

/-- The control polygon of a route; every stop has to have a place. -/
def route (h : Hierarchy) (r : Rings α) (source target : String) :
    Except Fault (List (Point α)) :=
  (way (routeLinks h) source target).mapM r.stop

end CapabilityAtlas.Layout

/-!
Bundled paths. Every membership of a tool, every edge between capabilities and all data flow between
tools is drawn as a route that is pulled straight as far as the tension says.
-/

namespace CapabilityAtlas.Layout

open CapabilityAtlas.Geometry CapabilityAtlas.Hierarchy CapabilityAtlas.Numeral

/-- What a path stands for: the first membership of a tool, a further one, an edge between
capabilities, or data flow. -/
inductive PathKind
  | hierarchy | hyperedge | capabilityLink | provides
  deriving DecidableEq, Repr

namespace PathKind

def label : PathKind → String
  | hierarchy => "hierarchy"
  | hyperedge => "hyperedge"
  | capabilityLink => "capability_link"
  | provides => "provides"

def idStart : PathKind → String
  | hierarchy => "hier"
  | hyperedge => "hyper"
  | capabilityLink => "cap"
  | provides => "tool"

end PathKind

structure Connection where
  kind : PathKind
  source : String
  target : String
  relation : Relation
  deriving DecidableEq

/-- The id of a connection, as long as no other one has it. -/
def Connection.plainId (c : Connection) : String :=
  c.kind.idStart ++ "-" ++ c.source ++ "-" ++ c.target

def memberships (parents : List String) (toolId : String) : List Connection :=
  match parents with
  | [] => []
  | first :: rest =>
    { kind := .hierarchy, source := first, target := toolId, relation := .contains } ::
      rest.map (fun parent =>
        { kind := .hyperedge, source := parent, target := toolId, relation := .contains })

/-- All connections, memberships in the order of the outer ring first. -/
def connections (h : Hierarchy) (toolIds : List String) : List Connection :=
  toolIds.flatMap (fun id => memberships (h.parentsOf id) id) ++
    h.capabilityLinks.map (fun l => {
      kind := .capabilityLink
      source := l.source
      target := l.target
      relation := l.relation }) ++
    h.toolLinks.map (fun l => {
      kind := .provides
      source := l.source
      target := l.target
      relation := ToolLink.relation })

/-- Ids with a number appended to those that have occurred before. -/
def numberRepeats (earlier : List String) : List String → List String
  | [] => []
  | id :: rest =>
    (if earlier.contains id then id ++ "-" ++ integerText (earlier.count id) else id) ::
      numberRepeats (id :: earlier) rest

structure BundledPath (α : Type) where
  id : String
  connection : Connection
  points : List (Point α)

variable {α : Type}

def drawn (h : Hierarchy) (r : Rings α) : List Connection :=
  (connections h (r.tools.map RingNode.id)).filter (fun c =>
    (r.point? c.source).isSome && (r.point? c.target).isSome)

variable [Add α] [Sub α] [Mul α] [Div α] [NatCast α]

def bundledPath (h : Hierarchy) (r : Rings α) (tension : α) (id : String) (c : Connection) :
    Except Fault (BundledPath α) := do
  let points ← route h r c.source c.target
  return { id := id, connection := c, points := straighten tension points }

def bundle (h : Hierarchy) (r : Rings α) (tension : α) : Except Fault (List (BundledPath α)) :=
  let connections := drawn h r
  ((numberRepeats [] (connections.map Connection.plainId)).zip connections).mapM
    (fun c => bundledPath h r tension c.1 c.2)

end CapabilityAtlas.Layout

/-!
Radial layouts: the rings of a hierarchy with its bundled paths. Another tension changes the paths
and leaves the rings as they are.
-/

namespace CapabilityAtlas.Layout

open CapabilityAtlas.Geometry

structure RadialLayout (α : Type) where
  rings : Rings α
  paths : List (BundledPath α)
  tension : α

variable {α : Type} [Add α] [Sub α] [Mul α] [Div α] [NatCast α] [LT α] [LE α] [DecidableLT α]
  [DecidableLE α]

/-- The tension that a raw value asks for. Only a number counts as undefined; a text that spells an
undefined number is brought between zero and one like any other text. -/
def tensionOf : Payload → Except Fault Float
  | .float x => .ok (clampTension x)
  | value => do return clampUnit (← value.binary)

def layoutAt (h : Hierarchy) (rings : Rings α) (tension : α) : Except Fault (RadialLayout α) := do
  let tension := clampTension tension
  let paths ← bundle h rings tension
  return { rings := rings, paths := paths, tension := tension }

def radialLayout [Circular α] [OfBinary α] (h : Hierarchy) (c : RadialConfig α) :
    Except Fault (RadialLayout α) :=
  layoutAt h (place h c) c.style.tension

def retension (h : Hierarchy) (l : RadialLayout α) (tension : α) :
    Except Fault (RadialLayout α) :=
  layoutAt h l.rings tension

def canvasConfig (width height : α) (tension : Option α)
    (style : RadialStyle α := RadialStyle.standard) : RadialConfig α where
  width := width
  height := height
  toolRadius := none
  capabilityRadius := none
  style := { style with tension := tension.getD style.tension }
  includeOrphans := false

def checkedLayout (h : Hierarchy) (c : RadialConfig Float) : Except Fault (RadialLayout Float) := do
  c.check
  radialLayout h c

def layoutOnCanvas (h : Hierarchy) (width height : Float) (tension : Option Float)
    (style : RadialStyle Float := RadialStyle.standard) : Except Fault (RadialLayout Float) :=
  checkedLayout h (canvasConfig width height tension style)

end CapabilityAtlas.Layout
