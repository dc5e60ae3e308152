import CapabilityAtlas.Record.Edge

set_option autoImplicit false
set_option relaxedAutoImplicit false

/-!
Tools, as servers expose them, with their externally computed metrics and the capabilities that
they declare as parents.
-/

namespace CapabilityAtlas

open CapabilityAtlas.Calendar CapabilityAtlas.Numeral

def unknownServer : String := "unknown"

structure Tool where
  id : String
  name : String
  server : String
  pagerank : Float
  degree : Int
  communityId : Option Int
  parents : List String
  lastUsed : Option Instant

namespace Tool

/-- The declared parents: the list if there is one, else the single parent. -/
def parentValues (fields : Fields) : Except Fault (List Payload) :=
  match fields.get "parents" with
  | .null => .ok (if (fields.get "parent").isGiven then [fields.get "parent"] else [])
  | value => value.elements

/-- The server, or the module of a standard-library tool that names one. -/
def serverValue (fields : Fields) : Payload :=
  let server := (fields.get "server").orElse (.text unknownServer)
  if server.isText "std" && (fields.get "module").isGiven then fields.get "module" else server

/-- The displayed name: a label, a name or the id, whichever is given first. -/
def nameValue (fields : Fields) : Except Fault Payload :=
  if (fields.get "label").isGiven then .ok (fields.get "label")
  else if (fields.get "name").isGiven then .ok (fields.get "name")
  else Edge.required fields "id"

def ofFields (fields : Fields) : Except Fault Tool := do
  let id ← (← Edge.required fields "id").spelled
  let name ← (← nameValue fields).spelled
  let server ← (serverValue fields).spelled
  let pagerank ← (fields.get "pagerank").numberOr 0
  let degree ← (fields.get "degree").numberOr 0
  let parents ← ((← parentValues fields).filter Payload.isGiven).mapM Payload.spelled
  let lastUsed ← (fields.get "last_used").moment?
  return {
    id := id
    name := name
    server := server
    pagerank := pagerank
    degree := (Exact.ofBinary degree).truncated?.getD 0
    communityId := (fields.get "community_id").whole?
    parents := parents
    lastUsed := lastUsed }

def ofPayload : Payload → Except Fault Tool
  | .record fields => ofFields fields
  | _ => .error .absentMember

end Tool

end CapabilityAtlas

/-!
Capabilities: learned compositions of tools and other capabilities. Their parent is derived from
the edges of the graph and never read.
-/

namespace CapabilityAtlas

open CapabilityAtlas.Calendar

structure Capability where
  id : String
  name : String
  usageCount : Float
  successRate : Float
  pagerank : Float
  lastUsed : Option Instant
  communityId : Option Int
  description : Payload
  fqdn : Payload
  codeSnippet : Payload
  parentId : Option String

namespace Capability

def firstTrace (fields : Fields) : Except Fault (Option Instant) :=
  match fields.get "traces" with
  | .list (.record trace :: _) => (Fields.get trace "executed_at").moment?
  | _ => .ok none

/-- The time of the last use, or else of the first recorded trace. -/
def lastUse (fields : Fields) : Except Fault (Option Instant) := do
  match ← (fields.get "last_used").moment? with
  | some i => return some i
  | none => firstTrace fields

def ofFields (fields : Fields) : Except Fault Capability := do
  let lastUsed ← lastUse fields
  let id ← (← Edge.required fields "id").spelled
  let name ← (← Tool.nameValue fields).spelled
  let usageCount ← (fields.get "usage_count").numberOr 0
  let successRate ← (fields.get "success_rate").numberOr 0
  let pagerank ← (fields.get "pagerank").numberOr 0
  return {
    id := id
    name := name
    usageCount := usageCount
    successRate := successRate
    pagerank := pagerank
    lastUsed := lastUsed
    communityId := (fields.get "community_id").whole?
    description := (fields.get "description").orElse (fields.get "intent")
    fqdn := fields.get "fqdn"
    codeSnippet := fields.get "code_snippet"
    parentId := none }

def ofPayload : Payload → Except Fault Capability
  | .record fields => ofFields fields
  | _ => .error .absentMember

end Capability

end CapabilityAtlas
