import CapabilityAtlas.Payload.Conversion

set_option autoImplicit false
set_option relaxedAutoImplicit false

/-!
Edges: typed relations between tools and capabilities. A type that is not known counts as
`hierarchy`.
-/

namespace CapabilityAtlas

inductive Relation
  | contains | sequence | dependency | capabilityLink | uses | provides | dependsOn | hierarchy
  deriving DecidableEq, Repr

namespace Relation

def label : Relation → String
  | .contains => "contains"
  | .sequence => "sequence"
  | .dependency => "dependency"
  | .capabilityLink => "capability_link"
  | .uses => "uses"
  | .provides => "provides"
  | .dependsOn => "dependsOn"
  | .hierarchy => "hierarchy"

def all : List Relation :=
  [.contains, .sequence, .dependency, .capabilityLink, .uses, .provides, .dependsOn, .hierarchy]

def ofLabel (name : String) : Relation := (all.find? (fun r => r.label = name)).getD .hierarchy

def ofPayload : Payload → Relation
  | .text name => ofLabel name
  | _ => .hierarchy

end Relation

structure Edge where
  source : String
  target : String
  relation : Relation
  weight : Option Float
  observedCount : Option Int

namespace Edge

def required (fields : Fields) (name : String) : Except Fault Payload :=
  match fields.get? name with
  | some value => .ok value
  | none => .error .absentKey

def ofFields (fields : Fields) : Except Fault Edge := do
  let source ← (← required fields "source").spelled
  let target ← (← required fields "target").spelled
  let relation := Relation.ofPayload ((fields.get "edge_type").orElse (fields.get "edgeType"))
  let weight ← (fields.get "weight").number?
  return {
    source := source
    target := target
    relation := relation
    weight := weight
    observedCount := (fields.get "observed_count").whole? }

def ofPayload : Payload → Except Fault Edge
  | .record fields => ofFields fields
  | _ => .error .unsupportedKind

end Edge

end CapabilityAtlas
