import CapabilityAtlas.Hierarchy.Tree
import CapabilityAtlas.Keyed

set_option autoImplicit false
set_option relaxedAutoImplicit false

/-!
Neighborhoods: the nodes within a number of hops of a start node, whatever the direction and the
type of the edges, and the edges among them.
-/

namespace CapabilityAtlas

open CapabilityAtlas.Numeral CapabilityAtlas.Hierarchy

inductive Reach
  | everything | nothing | hops (count : Nat)
  deriving DecidableEq, Repr

namespace Reach

def limit (cap : Int) : Reach → Int
  | .everything => cap
  | .nothing => 0
  | .hops n => min (n : Int) cap

def ofInt (n : Int) : Reach := if n ≤ 0 then .nothing else .hops n.toNat

/-- The reach of a binary number: a fraction of a hop is cut off, positive infinity is everything
and an undefined number nothing. -/
def ofFloat (x : Float) : Reach :=
  if x > 0 then
    match (Exact.ofBinary x).truncated? with
    | some n => .hops n.toNat
    | none => .everything
  else .nothing

def ofPayload : Payload → Except Fault Reach
  | .null => .ok .everything
  | .bool b => .ok (if b then .hops 1 else .nothing)
  | .int n => .ok (ofInt n)
  | .float x => .ok (ofFloat x)
  | _ => .error .unsupportedKind

end Reach

/-- The nodes within reach of a start, and the edges among them and the start. -/
structure Neighborhood where
  start : Option String
  reached : List String
  edges : List Edge
  depth : Int

namespace Neighborhood

def touches (id : String) (e : Edge) : Bool := e.source = id || e.target = id

def isKnown (edges : List Edge) (id : String) : Bool := edges.any (touches id)

def adjacent (edges : List Edge) (id : String) : List String :=
  edges.flatMap (fun e =>
    (if e.source = id then [e.target] else []) ++ (if e.target = id then [e.source] else []))

/-- What a graph library finds: the nodes within some hops of a start. -/
abbrev GraphSearch := List Edge → Nat → String → List String

/-- The nodes that a round of a search adds to those it has seen. -/
def found (edges : List Edge) (seen : List String) : List String :=
  firstOccurrences ((seen.flatMap (adjacent edges)).filter (fun id => !seen.contains id))

/-- The nodes within some hops of the given ones. -/
def within (edges : List Edge) : Nat → List String → List String
  | 0, seen => seen
  | hops + 1, seen =>
    let new := found edges seen
    if new.isEmpty then seen else within edges hops (seen ++ new)

def nearby : GraphSearch := fun edges hops start => within edges hops [start]

/-- The part of an id before the first separator, if it has one. -/
def toolPart : List Char → Option (List Char)
  | [] => none
  | c :: rest =>
    if instanceSeparator.toList.isPrefixOf (c :: rest) then some []
    else (toolPart rest).map (c :: ·)

/-- The node that an id means: itself, or the tool of an instance. -/
def resolve (edges : List Edge) (id : String) : Option String :=
  if isKnown edges id then some id
  else ((toolPart id.toList).map String.ofList).filter (isKnown edges)

/-- The node that a raw value means. A list or record means none, but it cannot be split where it
holds the separator. -/
def resolveValue (edges : List Edge) : Payload → Except Fault (Option String)
  | .text id => .ok (resolve edges id)
  | .list items =>
    if items.any (Payload.isText instanceSeparator) then .error .absentMember else .ok none
  | .record fields =>
    if (Fields.get? fields instanceSeparator).isSome then .error .absentMember else .ok none
  | _ => .error .unsupportedKind

def around (search : GraphSearch) (edges : List Edge) (hops : Int) (start : String) :
    Neighborhood :=
  if hops = 0 then { start := some start, reached := [], edges := [], depth := 0 }
  else
    let members := search edges hops.toNat start
    { start := some start
      reached := Order.sortTexts (members.filter (fun id => id ≠ start))
      edges := edges.filter (fun e => members.contains e.source && members.contains e.target)
      depth := hops }

def ofResolved (search : GraphSearch) (edges : List Edge) (hops : Int) :
    Option String → Neighborhood
  | some start => around search edges hops start
  | none => { start := none, reached := [], edges := [], depth := hops }

/-- The neighborhood that raw values ask for, as a graph library finds it. -/
def expandWith (search : GraphSearch) (edges : List Edge) (cap : Int) (start depth : Payload) :
    Except Fault Neighborhood := do
  let reach ← Reach.ofPayload depth
  let resolved ← resolveValue edges start
  return ofResolved search edges (reach.limit cap) resolved

def expandValue (edges : List Edge) (cap : Int) (start depth : Payload) :
    Except Fault Neighborhood :=
  expandWith nearby edges cap start depth

def isEmpty (n : Neighborhood) : Bool := n.reached.isEmpty

end Neighborhood

end CapabilityAtlas
