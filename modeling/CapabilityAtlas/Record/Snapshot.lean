import CapabilityAtlas.Record.Node

set_option autoImplicit false
set_option relaxedAutoImplicit false

/-!
Snapshots: one generation of the hypergraph. All entries are validated before any is built, nodes
before edges and each in order, and of several nodes with one id the first is kept.
-/

namespace CapabilityAtlas

open CapabilityAtlas.Text

structure Snapshot where
  tools : List Tool
  capabilities : List Capability
  edges : List Edge

inductive NodeKind
  | tool | capability
  deriving DecidableEq, Repr

namespace Snapshot

/-- The attributes of an entry, which stand in the entry itself or in its `data`. -/
def attributes (place : Place) : Payload → Except Fault Fields
  | .record fields =>
    match Fields.get fields "data" with
    | .record data => .ok data
    | _ => .ok fields
  | other => .error (.rejected place (.entryNotObject other.kindName))

/-- Checks that a field holds a text that is not blank, or a whole number. -/
def checkText (place : Place) (fields : Fields) (field : String) : Except Fault Unit :=
  match fields.get field with
  | .null => .error (.rejected place (.missing field))
  | .text s => if isBlankText s then .error (.rejected place (.missing field)) else .ok ()
  | .int _ | .bool _ => .ok ()
  | other => .error (.rejected place (.notText field other.kindName))

/-- The kind of a node; invocations are left out of the layout. -/
def nodeKind (place : Place) (fields : Fields) : Except Fault (Option NodeKind) :=
  match fields.get "type" with
  | .text "tool_invocation" => .ok none
  | .text "tool" => .ok (some .tool)
  | .text "capability" => .ok (some .capability)
  | .list _ | .record _ => .error .unsupportedKind
  | other => do .error (.rejected place (.unknownType (← other.quoted)))

def validNode (index : Nat) (entry : Payload) : Except Fault (Option (NodeKind × Fields)) := do
  let fields ← attributes (.node index) entry
  checkText (.node index) fields "id"
  return (← nodeKind (.node index) fields).map (·, fields)

def validEdge (index : Nat) (entry : Payload) : Except Fault Fields := do
  let fields ← attributes (.edge index) entry
  checkText (.edge index) fields "source"
  checkText (.edge index) fields "target"
  return fields

def validNodes (index : Nat) : List Payload → Except Fault (List (NodeKind × Fields))
  | [] => .ok []
  | entry :: rest => do
    let first ← validNode index entry
    return first.toList ++ (← validNodes (index + 1) rest)

def validEdges (index : Nat) : List Payload → Except Fault (List Fields)
  | [] => .ok []
  | entry :: rest => do
    let first ← validEdge index entry
    return first :: (← validEdges (index + 1) rest)

/-- The entries of a list field; an absent or empty value is an empty list. -/
def entries (place : Place) (value : Payload) : Except Fault (List Payload) :=
  if value.isGiven then
    match value with
    | .list items => .ok items
    | _ => .error (.rejected place .notList)
  else .ok []

/-- Builds the nodes of validated records, skipping those whose id has been seen. -/
def buildNodes (seen : List String) :
    List (NodeKind × Fields) → Except Fault (List Tool × List Capability)
  | [] => .ok ([], [])
  | (kind, fields) :: rest => do
    let id ← (← Edge.required fields "id").spelled
    if seen.contains id then buildNodes seen rest
    else match kind with
      | .tool =>
        let tool ← Tool.ofFields fields
        let (tools, capabilities) ← buildNodes (id :: seen) rest
        return (tool :: tools, capabilities)
      | .capability =>
        let capability ← Capability.ofFields fields
        let (tools, capabilities) ← buildNodes (id :: seen) rest
        return (tools, capability :: capabilities)

def ofPayload : Payload → Except Fault Snapshot
  | .record payload => do
    let rawNodes ← entries .nodes (Fields.get payload "nodes")
    let rawEdges ← entries .edges (Fields.get payload "edges")
    let nodeRecords ← validNodes 0 rawNodes
    let edgeRecords ← validEdges 0 rawEdges
    let (tools, capabilities) ← buildNodes [] nodeRecords
    let edges ← edgeRecords.mapM Edge.ofFields
    return { tools := tools, capabilities := capabilities, edges := edges }
  | other => .error (.rejected .whole (.notObject other.kindName))

def nodeIds (s : Snapshot) : List String := s.tools.map Tool.id ++ s.capabilities.map Capability.id

end Snapshot

end CapabilityAtlas
