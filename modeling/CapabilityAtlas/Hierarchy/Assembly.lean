import CapabilityAtlas.Hierarchy.Build

set_option autoImplicit false
set_option relaxedAutoImplicit false

/-!
The hierarchy put together in passes. A table of nodes is filled first; then every node is hung
below its parent and every tool is put into each of its capabilities. A pass looks up the nodes
that it changes and fails where one of them is missing.
-/

namespace CapabilityAtlas.Hierarchy

/-- A node under construction: its entry with the tools it has so far, and the ids below it. -/
structure Draft where
  entry : Entry
  children : List String

namespace Draft

def addChild (id : String) (d : Draft) : Draft := { d with children := d.children ++ [id] }

def addTool (i : ToolInstance) (d : Draft) : Draft :=
  { d with entry := { d.entry with tools := d.entry.tools ++ [i] } }

end Draft

def blankDrafts (parents : Keyed String) (levels : Keyed Nat) (active : List Capability) :
    Keyed Draft :=
  Keyed.ofPairs (active.map (fun c =>
    (c.id, { entry := entryOf parents levels [] c, children := [] })))

def revise (drafts : Keyed Draft) (id : String) (change : Draft → Draft) :
    Except Fault (Keyed Draft) :=
  match drafts.get? id with
  | some d => .ok (drafts.put id (change d))
  | none => .error .absentKey

def hang (parents : Keyed String) (state : List String × Keyed Draft) (id : String) :
    Except Fault (List String × Keyed Draft) :=
  match parents.get? id with
  | some parent => do return (state.1, ← revise state.2 parent (Draft.addChild id))
  | none => .ok (state.1 ++ [id], state.2)

def install (drafts : Keyed Draft) (p : Placement) : Except Fault (Keyed Draft) :=
  p.parents.foldlM (fun drafts parent =>
    revise drafts parent (Draft.addTool (p.instanceIn parent))) drafts

/-- What the pass over the tools fills: the nodes, the tools that have a place, the others, and the
number of those that have several places. -/
structure Distribution where
  drafts : Keyed Draft
  placed : Keyed Tool
  orphans : List Tool
  shared : Nat

/-- Puts a tool into the nodes of its parents according to a table, or among the orphans. -/
def distribute (table : Keyed (List String)) (d : Distribution) (t : Tool) :
    Except Fault Distribution :=
  let p : Placement := { tool := t, parents := (table.get? t.id).getD [] }
  if p.parents.isEmpty then .ok { d with orphans := d.orphans ++ [t] }
  else do return {
    drafts := ← install d.drafts p
    placed := d.placed.put t.id t
    orphans := d.orphans
    shared := if p.isShared then d.shared + 1 else d.shared }

def distributeTools (s : Snapshot) (drafts : Keyed Draft) : Except Fault Distribution :=
  let ids := (s.capabilities.filter isActive).map Capability.id
  s.tools.foldlM (distribute (membershipTable ids s.edges s.tools))
    { drafts := drafts, placed := [], orphans := [], shared := 0 }

/-- The trees of some ids. Below itself a node is no longer in the table, so that ids which hang
below themselves are missing there. -/
def unfoldTrees (drafts : Keyed Draft) (ids : List String) : Except Fault (List Tree) :=
  ids.mapM (fun id =>
    match _h : drafts.get? id with
    | some d => do return .node d.entry (← unfoldTrees (drafts.erase id) d.children)
    | none => .error .absentKey)
  termination_by drafts.length
  decreasing_by exact Keyed.length_erase_lt drafts ‹_›

/-- Puts the hierarchy of a snapshot together, pass by pass. -/
def assemble (s : Snapshot) : Except Fault Hierarchy := do
  let active := s.capabilities.filter isActive
  let ids := active.map Capability.id
  let links := firstParents s.edges ids
  let levels := levelTable (nestingOf links ids) ids
  let parents ← forest? ids links
  let (top, drafts) ← ids.foldlM (hang parents) ([], blankDrafts parents levels active)
  let tools := placeTools ids s.edges s.tools
  let placements := tools.filter (fun p => !p.parents.isEmpty)
  let drafts ← placements.foldlM install drafts
  return {
    entries := drafts.map (fun draft => draft.2.entry)
    roots := ← unfoldTrees drafts top
    parents := parents
    levels := levels
    placements := placements
    orphans := (tools.filter (fun p => p.parents.isEmpty)).map Placement.tool
    capabilityLinks := linksBetween ids s.edges
    toolLinks := dataFlow placements s.edges
    discarded := s.capabilities.length - active.length }

end CapabilityAtlas.Hierarchy
