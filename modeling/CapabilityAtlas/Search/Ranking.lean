import CapabilityAtlas.Hierarchy.Tree
import CapabilityAtlas.Keyed
import CapabilityAtlas.Search.Match

set_option autoImplicit false
set_option relaxedAutoImplicit false

/-!
Ranked search over capabilities. A capability scores as its best field does, the first of several
that are equally good; hits are listed by falling score, then by name and id.
-/

namespace CapabilityAtlas.Search

open CapabilityAtlas.Hierarchy CapabilityAtlas.Text

inductive Field
  | name | description | fqdn | tool | server
  deriving DecidableEq, Repr

def Field.label : Field → String
  | .name => "name"
  | .description => "description"
  | .fqdn => "fqdn"
  | .tool => "tool"
  | .server => "server"

/-- The limits of a search: the fewest characters of a query and the number of hits that are
listed, where a negative number leaves out that many at the end. -/
structure Limits where
  minQueryLength : Int := 2
  maxResults : Int := 8

structure Hit (α : Type) where
  id : String
  name : String
  score : α
  field : Field
  successRate : Float
  toolCount : Nat

variable {α : Type}

/-- The fields of a capability and of its tools, in the order in which they are tried. -/
def fields (e : Entry) : List (Field × Payload) :=
  [(.name, .text e.name), (.description, e.capability.description), (.fqdn, e.capability.fqdn)] ++
    e.tools.flatMap (fun i => [(.tool, .text i.tool.name), (.server, .text i.tool.server)])

def better [LT α] [DecidableLT α] (field : Field) (best : Option (α × Field)) :
    Option α → Option (α × Field)
  | none => best
  | some score =>
    match best with
    | some (top, first) => if top < score then some (score, field) else some (top, first)
    | none => some (score, field)

def best? [WordDistance] [Add α] [Div α] [NatCast α] [LT α] [DecidableLT α] (query : String)
    (candidates : List (Field × Payload)) : Except Fault (Option (α × Field)) :=
  candidates.foldlM (fun best candidate => do
    return better candidate.1 best (← scoreValue? candidate.2 (.text query))) none

def hit? [WordDistance] [Add α] [Div α] [NatCast α] [LT α] [DecidableLT α] (query : String)
    (e : Entry) : Except Fault (Option (Hit α)) := do
  return (← best? query (fields e)).map (fun found => {
    id := e.id
    name := e.name
    score := found.1
    field := found.2
    successRate := e.capability.successRate
    toolCount := e.tools.length })

def hitLe [LT α] [DecidableLT α] (a b : Hit α) : Bool :=
  b.score < a.score || (!decide (a.score < b.score) && Order.pairLe (a.name, a.id) (b.name, b.id))

/-- The first hits, up to an end that may count from the back. -/
def firstHits (count : Int) (hits : List (Hit α)) : List (Hit α) :=
  hits.take (if count < 0 then hits.length + count else count).toNat

/-- The text of a raw query without the blanks around it; what is not given is empty. -/
def queryText (query : Payload) : Except Fault String :=
  if query.isGiven then
    match query with
    | .text q => .ok (String.ofList (trim q.toList))
    | _ => .error .absentMember
  else .ok ""

def rank [WordDistance] [Add α] [Div α] [NatCast α] [LT α] [DecidableLT α] (limits : Limits)
    (entries : List Entry) (query : String) : Except Fault (List (Hit α)) := do
  if query.toList.length < limits.minQueryLength then return []
  else
    let hits ← entries.mapM (hit? query)
    return firstHits limits.maxResults ((hits.filterMap id).mergeSort hitLe)

def rankValue [WordDistance] [Add α] [Div α] [NatCast α] [LT α] [DecidableLT α]
    (limits : Limits) (entries : List Entry) (query : Payload) : Except Fault (List (Hit α)) := do
  rank limits entries (← queryText query)

end CapabilityAtlas.Search
