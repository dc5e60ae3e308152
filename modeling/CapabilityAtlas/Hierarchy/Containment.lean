import CapabilityAtlas.Keyed
import CapabilityAtlas.Record.Edge

set_option autoImplicit false
set_option relaxedAutoImplicit false

/-!
Containment as links from children to parents. The first containing edge of a child gives its
link; links that run in a circle are cut at the member that comes first in the input order, so
what remains is a forest.
-/

namespace CapabilityAtlas.Hierarchy

/-- Whether an edge says that one of the given capabilities contains another one. -/
def nests (ids : List String) (e : Edge) : Bool :=
  e.relation = .contains && ids.contains e.source && ids.contains e.target && e.source != e.target

def linkOnce (links : Keyed String) (e : Edge) : Keyed String :=
  if links.has e.target then links else links.put e.target e.source

def firstParents (edges : List Edge) (ids : List String) : Keyed String :=
  (edges.filter (nests ids)).foldl linkOnce []

/-- The circle into which the links lead from an id, if they lead into one; `chain` holds the ids
that have been passed. -/
def circleAbove (links : Keyed String) (chain : List String) (id : String) :
    Option (List String) :=
  if chain.contains id then some (chain.dropWhile (· ≠ id))
  else match _h : links.get? id with
    | none => none
    | some parent => circleAbove (links.erase id) (chain ++ [id]) parent
  termination_by links.length
  decreasing_by exact Keyed.length_erase_lt links ‹_›

/-- The member of a circle that comes first in the order, where the last mention of an id counts. -/
def earliest? (circle : List String) : List String → Option String
  | [] => none
  | id :: rest =>
    if circle.contains id && !rest.contains id then some id else earliest? circle rest

def cut (order : List String) (links : Keyed String) (circle : List String) : Keyed String :=
  match earliest? circle order with
  | some id => links.erase id
  | none => links

def cutAbove (order : List String) (links : Keyed String) (id : String) : Keyed String :=
  match circleAbove links [] id with
  | some circle => cut order links circle
  | none => links

/-- The links that remain when all circles have been cut. -/
def forest (order : List String) (links : Keyed String) : Keyed String :=
  order.foldl (cutAbove order) links

/-- Cuts the circle above an id; every member of it has to have a place in the order. -/
def cutAbove? (order : List String) (links : Keyed String) (id : String) :
    Except Fault (Keyed String) :=
  match circleAbove links [] id with
  | some circle =>
    if circle.all order.contains then .ok (cut order links circle) else .error .absentKey
  | none => .ok links

/-- The links that remain, where links may lead to ids that have no place in the order. -/
def forest? (order : List String) (links : Keyed String) : Except Fault (Keyed String) :=
  order.foldlM (cutAbove? order) links

/-!
Nesting levels. A capability without children has level one, any other one more than the highest
level of its children. A capability that is met again below itself counts as level one there, and
what has been computed once is kept.
-/

abbrev Nesting := Keyed (List String)

def childrenOf (nesting : Nesting) (id : String) : List String := (nesting.get? id).getD []

def inner (nesting : Nesting) : List String :=
  nesting.keys.filter (fun id => !(childrenOf nesting id).isEmpty)

mutual

/-- The level of an id. Those with children that are not on the path down to it are `free`. -/
def levelOf (nesting : Nesting) (free : List String) (known : Keyed Nat) (id : String) :
    Nat × Keyed Nat :=
  match known.get? id with
  | some level => (level, known)
  | none =>
    if id ∈ free then
      let (top, known) := highest nesting (free.erase id) known (childrenOf nesting id)
      (top + 1, known.put id (top + 1))
    else if (childrenOf nesting id).isEmpty then (1, known.put id 1)
    else (1, known)
  termination_by (free.length, 0)
  decreasing_by
    have := List.length_erase_of_mem ‹id ∈ free›
    have := List.length_pos_of_mem ‹id ∈ free›
    exact Prod.Lex.left _ _ (by omega)

def highest (nesting : Nesting) (free : List String) (known : Keyed Nat) :
    List String → Nat × Keyed Nat
  | [] => (0, known)
  | id :: rest =>
    let (level, known) := levelOf nesting free known id
    let (top, known) := highest nesting free known rest
    (max level top, known)
  termination_by ids => (free.length, ids.length + 1)
  decreasing_by
    · exact Prod.Lex.right _ (by simp)
    · exact Prod.Lex.right _ (by simp)

end

/-- The levels of the given ids and of all ids below them. -/
def levelTable (nesting : Nesting) (ids : List String) : Keyed Nat :=
  ids.foldl (fun known id => (levelOf nesting (inner nesting) known id).2) []

end CapabilityAtlas.Hierarchy
