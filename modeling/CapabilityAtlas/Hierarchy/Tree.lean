import CapabilityAtlas.Record.Node

set_option autoImplicit false
set_option relaxedAutoImplicit false

/-!
The tree of capabilities. Each capability holds its level and one instance of every tool that
belongs to it; a tool that belongs to several capabilities has an instance in each of them.
-/

namespace CapabilityAtlas.Hierarchy

/-- What stands between the two ids in the id of an instance of a shared tool. -/
def instanceSeparator : String := "__"

def instanceId (toolId parentId : String) (shared : Bool) : String :=
  if shared then toolId ++ instanceSeparator ++ parentId else toolId

structure ToolInstance where
  id : String
  tool : Tool
  parentId : String
  parents : List String

namespace ToolInstance

def isShared (i : ToolInstance) : Bool := i.parents.length > 1

def primaryParent (i : ToolInstance) : String := i.parents.headD i.parentId

end ToolInstance

structure Placement where
  tool : Tool
  parents : List String

namespace Placement

def isShared (p : Placement) : Bool := p.parents.length > 1

def instanceIn (p : Placement) (parentId : String) : ToolInstance where
  id := instanceId p.tool.id parentId p.isShared
  tool := p.tool
  parentId := parentId
  parents := p.parents

end Placement

structure Entry where
  capability : Capability
  level : Nat
  tools : List ToolInstance

namespace Entry

def id (e : Entry) : String := e.capability.id

def name (e : Entry) : String := e.capability.name

end Entry

inductive Tree
  | node (entry : Entry) (children : List Tree)

namespace Tree

def entry : Tree → Entry
  | node e _ => e

def children : Tree → List Tree
  | node _ ts => ts

def id (t : Tree) : String := t.entry.id

def name (t : Tree) : String := t.entry.name

def level (t : Tree) : Nat := t.entry.level

mutual

/-- A tree and all trees below it, parents before children. -/
def walk : Tree → List Tree
  | node e ts => node e ts :: walkAll ts

def walkAll : List Tree → List Tree
  | [] => []
  | t :: ts => walk t ++ walkAll ts

end

end Tree

def kids (parentOf : Entry → Option String) (left : List Entry) (parent : Option String) :
    List Entry :=
  left.filter (fun e => parentOf e = parent)

def others (parentOf : Entry → Option String) (left : List Entry) (parent : Option String) :
    List Entry :=
  left.filter (fun e => parentOf e ≠ parent)

private theorem length_others_lt {parentOf : Entry → Option String} {left : List Entry}
    {parent : Option String} {e : Entry} (h : e ∈ kids parentOf left parent) :
    (others parentOf left parent).length < left.length := by
  obtain ⟨hmem, heq⟩ := List.mem_filter.mp h
  refine List.length_filter_lt_length_iff_exists.mpr ⟨e, hmem, ?_⟩
  simpa using heq

/-- The trees under a parent, or those of the roots, grown from the entries that are left;
`parentOf` gives the parent of an entry, and none for a root. -/
def grow (parentOf : Entry → Option String) (left : List Entry) (parent : Option String) :
    List Tree :=
  (kids parentOf left parent).attach.map (fun kid =>
    .node kid.1 (grow parentOf (others parentOf left parent) (some kid.1.id)))
  termination_by left.length
  decreasing_by exact length_others_lt kid.2

theorem grow_eq (parentOf : Entry → Option String) (left : List Entry) (parent : Option String) :
    grow parentOf left parent = (kids parentOf left parent).map (fun e =>
      .node e (grow parentOf (others parentOf left parent) (some e.id))) := by
  conv => lhs; unfold grow
  rw [List.attach_map_val (f := fun e =>
    Tree.node e (grow parentOf (others parentOf left parent) (some e.id)))]

end CapabilityAtlas.Hierarchy
