import CapabilityAtlas.Geometry.Hull
import CapabilityAtlas.Geometry.HullGroup
import CapabilityAtlas.Layout.Radial
import CapabilityAtlas.Layout.Timeline
import CapabilityAtlas.Neighborhood
import CapabilityAtlas.Palette

set_option autoImplicit false
set_option relaxedAutoImplicit false

/-!
An engine answers every question about one generation of the graph. It keeps the radial layout of
each canvas size, so that another tension only changes paths, and the colors of servers.
-/

namespace CapabilityAtlas

open CapabilityAtlas.Geometry CapabilityAtlas.Hierarchy CapabilityAtlas.Layout

structure CanvasLayout where
  width : Float
  height : Float
  layout : RadialLayout Float

def CanvasLayout.fits (width height : Float) (c : CanvasLayout) : Bool :=
  c.width == width && c.height == height

structure Engine where
  snapshot : Snapshot
  hierarchy : Hierarchy
  settings : Settings Float
  limits : Search.Limits
  maxHops : Int
  palette : Palette
  layouts : List CanvasLayout

namespace Engine

/-- The engine of a snapshot under some settings. The cap on hops and the limits of searches are
given beside them, since a caller may replace these. -/
def start (s : Snapshot) (maxHops : Int) (limits : Search.Limits)
    (settings : Settings Float := Settings.standard) : Engine where
  snapshot := s
  hierarchy := Hierarchy.build s
  settings := settings
  limits := limits
  maxHops := maxHops
  palette := Palette.standard
  layouts := []

def configured (settings : Settings Float) (s : Snapshot) : Engine :=
  start s settings.maxHops settings.search settings

def kept? (e : Engine) (width height : Float) : Option (RadialLayout Float) :=
  (e.layouts.find? (CanvasLayout.fits width height)).map CanvasLayout.layout

def keep (e : Engine) (width height : Float) (layout : RadialLayout Float) : Engine :=
  let others := e.layouts.filter (fun c => !c.fits width height)
  { e with layouts := { width := width, height := height, layout := layout } :: others }

def answer (e : Engine) (width height : Float) (made : Except Fault (RadialLayout Float)) :
    Except Fault (RadialLayout Float) × Engine :=
  match made with
  | .ok layout => (.ok layout, e.keep width height layout)
  | .error fault => (.error fault, e)

def rebundle (e : Engine) (kept : RadialLayout Float) (tension width height : Float) :
    Except Fault (RadialLayout Float) × Engine :=
  e.answer width height (Layout.retension e.hierarchy kept tension)

def layOut (e : Engine) (width height : Float) (tension : Option Float) :
    Except Fault (RadialLayout Float) × Engine :=
  e.answer width height (layoutOnCanvas e.hierarchy width height tension e.settings.radial)

/-- The layout for a size; without a tension that of the last answer for the size is used. -/
def radial (e : Engine) (width height : Float) (tension : Option Float) :
    Except Fault (RadialLayout Float) × Engine :=
  match e.kept? width height, tension with
  | none, _ => e.layOut width height tension
  | some kept, none => (.ok kept, e)
  | some kept, some t =>
    if clampTension t == kept.tension then (.ok kept, e) else e.rebundle kept t width height

def retension (e : Engine) (tension width height : Float) :
    Except Fault (RadialLayout Float) × Engine :=
  match e.kept? width height with
  | none => e.radial width height (some tension)
  | some kept => e.rebundle kept tension width height

def highlight (e : Engine) (id depth : Payload) : Except Fault Neighborhood :=
  Neighborhood.expandValue e.snapshot.edges e.maxHops id depth

def search (e : Engine) (query : Payload) : Except Fault (List (Search.Hit Float)) :=
  Search.rankValue e.limits (e.hierarchy.walk.map Tree.entry) query

def timeline (e : Engine) (containerWidth : Float) (now : Int) (filter : Option (List String))
    (topLevelOnly : Bool) : Except Fault (Timeline Float) :=
  checkedTimeline e.hierarchy
    { containerWidth := containerWidth, style := e.settings.timeline,
      topLevelOnly := topLevelOnly }
    now filter

/-- Whether an id is one of some ids or that of an instance of one of them. -/
def isWanted (ids : List String) (key : String) : Bool :=
  ids.contains key ||
    ids.any (fun id => (id ++ instanceSeparator).toList.isPrefixOf key.toList)

def pointsFor (ids : List String) (positions : Keyed (Point Float)) : List (Point Float) :=
  (positions.filter (fun entry => isWanted ids entry.1)).map Prod.snd

def outlineStyle (padding : Option Float) (smooth : Bool)
    (settings : Settings Float := Settings.standard) : OutlineStyle Float where
  padding := padding.getD settings.hullPadding
  smooth := smooth
  samples := settings.hullSamples

def clusterOutline (ids : List String) (positions : Keyed (Point Float)) (padding : Option Float)
    (smooth : Bool) (settings : Settings Float := Settings.standard) : List (Point Float) :=
  outline (outlineStyle padding smooth settings) (pointsFor ids positions)

def communities (h : Hierarchy) : List Int :=
  (h.walk.filterMap (fun t => t.entry.capability.communityId)).eraseDups.mergeSort
    (fun a b => a ≤ b)

/-- The capabilities of a community, each followed by its tools. -/
def communityMembers (h : Hierarchy) (community : Int) : List String :=
  (h.walk.filter (fun t => t.entry.capability.communityId = some community)).flatMap
    (fun t => t.id :: t.entry.tools.map (fun i => i.tool.id))

/-- The hull around a community, unless too few of its members have a position. -/
def communityHull? (settings : Settings Float) (h : Hierarchy) (positions : Keyed (Point Float))
    (padding : Option Float) (community : Int) : Option (HullGroup Float) :=
  let members := communityMembers h community
  let points := clusterOutline members positions padding false settings
  if points.isEmpty then none
  else some {
    points := points
    color := Palette.communityColor (some community)
    animated := false
    members := firstOccurrences members }

def communityHulls (e : Engine) (positions : Keyed (Point Float)) (padding : Option Float) :
    List (HullGroup Float) :=
  HullGroup.merge ((communities e.hierarchy).filterMap
    (communityHull? e.settings e.hierarchy positions padding))

/-- The servers: those of placed tools ascending, then the others of orphans ascending. -/
def servers (h : Hierarchy) : List String :=
  let placed := Order.sortTexts (firstOccurrences (h.placements.map (fun p => p.tool.server)))
  placed ++ Order.sortTexts
    ((firstOccurrences (h.orphans.map Tool.server)).filter (fun s => !placed.contains s))

def serverColors (e : Engine) : List (String × String) × Engine :=
  let (colors, palette) := e.palette.colorAll (servers e.hierarchy)
  (colors, { e with palette := palette })

end Engine

end CapabilityAtlas
