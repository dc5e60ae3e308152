import CapabilityAtlas.Hierarchy.Containment
import CapabilityAtlas.Hierarchy.Membership
import CapabilityAtlas.Record.Snapshot
import CapabilityAtlas.Scalar

set_option autoImplicit false
set_option relaxedAutoImplicit false

/-!
The hierarchy of one generation. Capabilities that were never used are left out; the others form
a forest by containment, each at its nesting level, and a tool without a remaining parent is an
orphan.
-/

namespace CapabilityAtlas

open CapabilityAtlas.Hierarchy

/-- The hierarchy of one generation; `entries` holds the capabilities in input order. -/
structure Hierarchy where
  entries : List Entry
  roots : List Tree
  parents : Keyed String
  levels : Keyed Nat
  placements : List Placement
  orphans : List Tool
  capabilityLinks : List CapabilityLink
  toolLinks : List ToolLink
  discarded : Nat

namespace Hierarchy

def isActive (c : Capability) : Bool := c.usageCount > 0

def nestingOf (links : Keyed String) (ids : List String) : Nesting :=
  ids.foldl (fun nesting id =>
    match links.get? id with
    | some parent => nesting.put parent (childrenOf nesting parent ++ [id])
    | none => nesting) []

/-- A capability with its final parent, its level and its tools. -/
def entryOf (parents : Keyed String) (levels : Keyed Nat) (placements : List Placement)
    (c : Capability) : Entry where
  capability := { c with parentId := parents.get? c.id }
  level := (levels.get? c.id).getD 1
  tools := instancesIn placements c.id

def build (s : Snapshot) : Hierarchy :=
  let active := s.capabilities.filter isActive
  let ids := active.map Capability.id
  let links := firstParents s.edges ids
  let levels := levelTable (nestingOf links ids) ids
  let parents := forest ids links
  let tools := placeTools ids s.edges s.tools
  let placements := tools.filter (fun p => !p.parents.isEmpty)
  let entries := active.map (entryOf parents levels placements)
  { entries := entries
    roots := grow (fun e => e.capability.parentId) entries none
    parents := parents
    levels := levels
    placements := placements
    orphans := (tools.filter (fun p => p.parents.isEmpty)).map Placement.tool
    capabilityLinks := linksBetween ids s.edges
    toolLinks := dataFlow placements s.edges
    discarded := s.capabilities.length - active.length }

def walk (h : Hierarchy) : List Tree := Tree.walkAll h.roots

/-- The capabilities without tools and without children, in input order. -/
def empties (h : Hierarchy) : List Entry :=
  h.entries.filter (fun e => e.tools.isEmpty && !h.parents.any (fun link => link.2 = e.id))

def hyperedges (h : Hierarchy) : List Placement := h.placements.filter Placement.isShared

def maxLevel (h : Hierarchy) : Nat := (h.levels.map Prod.snd).foldl max 1

/-- The level of a capability relative to the highest, strictly between zero and one. -/
def levelNorm {α : Type} [NatCast α] [Div α] (h : Hierarchy) (level : Nat) : α :=
  Scalar.ratio level (h.maxLevel + 1)

def levelAt (h : Hierarchy) (id : String) : Nat := (h.levels.get? id).getD 1

def entry? (h : Hierarchy) (id : String) : Option Entry := h.entries.find? (fun e => e.id = id)

def parentsOf (h : Hierarchy) (toolId : String) : List String :=
  match h.placements.find? (fun p => p.tool.id = toolId) with
  | some p => p.parents
  | none => []

def instancesOf (h : Hierarchy) (toolId : String) : List ToolInstance :=
  (h.parentsOf toolId).flatMap (fun parent =>
    match h.entry? parent with
    | some e => e.tools.filter (fun i => i.tool.id = toolId)
    | none => [])

structure Stats where
  capabilities : Nat
  tools : Nat
  orphans : Nat
  empties : Nat
  hyperedges : Nat
  discarded : Nat
  maxLevel : Nat
  deriving DecidableEq, Repr

def stats (h : Hierarchy) : Stats where
  capabilities := h.entries.length
  tools := h.placements.length
  orphans := h.orphans.length
  empties := h.empties.length
  hyperedges := h.hyperedges.length
  discarded := h.discarded
  maxLevel := h.maxLevel

end Hierarchy

end CapabilityAtlas
