import CapabilityAtlas.Hierarchy.Tree
import CapabilityAtlas.Keyed

set_option autoImplicit false
set_option relaxedAutoImplicit false

/-!
To which capabilities a tool belongs: the parents that the tool declares come first, those that
edges give follow, and each counts once. The table of all tools is filled in two passes, over the
tools and over the edges.
-/

namespace CapabilityAtlas.Hierarchy

def attaches (ids : List String) (toolId : String) (e : Edge) : Bool :=
  (e.relation = .contains || e.relation = .hierarchy) && ids.contains e.source &&
    e.target = toolId

def toolParents (ids : List String) (edges : List Edge) (t : Tool) : List String :=
  firstOccurrences
    (t.parents.filter ids.contains ++ (edges.filter (attaches ids t.id)).map Edge.source)

def placeTools (ids : List String) (edges : List Edge) (tools : List Tool) : List Placement :=
  tools.map (fun t => { tool := t, parents := toolParents ids edges t })

def instancesIn (placements : List Placement) (id : String) : List ToolInstance :=
  (placements.filter (fun p => p.parents.contains id)).map (fun p => p.instanceIn id)

def addOnce (ids : List String) (id : String) : List String :=
  if ids.contains id then ids else ids ++ [id]

/-- Enters a tool with those of the given capabilities that it declares as parents. -/
def enterTool (ids : List String) (table : Keyed (List String)) (t : Tool) : Keyed (List String) :=
  table.put t.id ((t.parents.filter ids.contains).foldl addOnce [])

def isMembership (ids : List String) (e : Edge) : Bool :=
  (e.relation = .contains || e.relation = .hierarchy) && ids.contains e.source

/-- Adds the source of an edge to the parents of its target, if that is in the table. -/
def attachEdge (ids : List String) (table : Keyed (List String)) (e : Edge) :
    Keyed (List String) :=
  match table.get? e.target with
  | some parents =>
    if isMembership ids e then table.put e.target (addOnce parents e.source) else table
  | none => table

/-- The capabilities, among the given ones, of every tool. -/
def membershipTable (ids : List String) (edges : List Edge) (tools : List Tool) :
    Keyed (List String) :=
  edges.foldl (attachEdge ids) (tools.foldl (enterTool ids) [])

/-!
The edges that are drawn beside the tree: every edge between two capabilities, and the data flow
between two tools that belong to a common capability.
-/

structure CapabilityLink where
  source : String
  target : String
  relation : Relation
  observedCount : Int

structure ToolLink where
  source : String
  target : String
  weight : Option Float

def ToolLink.relation : Relation := .provides

def linksBetween (ids : List String) (edges : List Edge) : List CapabilityLink :=
  (edges.filter (fun e => ids.contains e.source && ids.contains e.target)).map (fun e => {
    source := e.source
    target := e.target
    relation := e.relation
    observedCount := e.observedCount.getD 1 })

def related (placements : List Placement) (first second : String) : Bool :=
  placements.any (fun p => p.tool.id = first && placements.any (fun q =>
    q.tool.id = second && p.parents.any q.parents.contains))

/-- The data flow between tools that belong to a common capability. -/
def dataFlow (placements : List Placement) (edges : List Edge) : List ToolLink :=
  (edges.filter (fun e =>
    e.relation = ToolLink.relation && related placements e.source e.target)).map (fun e => {
      source := e.source
      target := e.target
      weight := e.weight })

end CapabilityAtlas.Hierarchy
