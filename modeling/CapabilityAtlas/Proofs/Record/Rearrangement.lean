import CapabilityAtlas.Proofs.Record.DistinctIds
import CapabilityAtlas.Proofs.Record.Validation

set_option autoImplicit false
set_option relaxedAutoImplicit false

/-!
Snapshots of the same nodes in another order. Where no node is skipped for its id, each record is
read on its own, so that the tools and the capabilities come in the order of their records.
-/

namespace CapabilityAtlas.Snapshot

open Fault (ok_of_bind)

def toolOf? (record : NodeKind × Fields) : Option Tool :=
  match record.1 with
  | .tool => (Tool.ofFields record.2).toOption
  | .capability => none

def capabilityOf? (record : NodeKind × Fields) : Option Capability :=
  match record.1 with
  | .tool => none
  | .capability => (Capability.ofFields record.2).toOption

def DistinctIds (nodes : List Payload) : Prop :=
  ((nodes.filterMap nodeRecord?).map (fun record => recordId record.2)).Nodup

instance (nodes : List Payload) : Decidable (DistinctIds nodes) :=
  inferInstanceAs (Decidable (List.Nodup _))

/-- Whether a record can be read on its own. -/
def Builds (record : NodeKind × Fields) : Prop :=
  (∃ id, recordId record.2 = .ok id) ∧
    match record.1 with
    | .tool => ∃ t, Tool.ofFields record.2 = .ok t
    | .capability => ∃ c, Capability.ofFields record.2 = .ok c

private theorem fresh_of_nodup_cons {seen : List String} {id : String}
    {record : NodeKind × Fields} {rest : List (NodeKind × Fields)}
    (mine : recordId record.2 = .ok id)
    (distinct : ((record :: rest).map (fun record => recordId record.2)).Nodup)
    (fresh : ∀ other ∈ record :: rest, ∀ before ∈ seen, recordId other.2 ≠ .ok before) :
    ∀ other ∈ rest, ∀ before ∈ id :: seen, recordId other.2 ≠ .ok before := by
  intro other member before known same
  rcases List.mem_cons.mp known with rfl | known
  · apply (List.nodup_cons.mp (List.map_cons ▸ distinct)).1
    rw [mine, ← same]
    exact List.mem_map_of_mem member
  · exact fresh other (List.mem_cons_of_mem _ member) before known same

theorem Built.eq_filterMap {seen : List String} {records : List (NodeKind × Fields)}
    {tools : List Tool} {capabilities : List Capability}
    (built : Built seen records tools capabilities)
    (distinct : (records.map (fun record => recordId record.2)).Nodup)
    (fresh : ∀ record ∈ records, ∀ id ∈ seen, recordId record.2 ≠ .ok id) :
    tools = records.filterMap toolOf? ∧ capabilities = records.filterMap capabilityOf? ∧
      ∀ record ∈ records, Builds record := by
  induction built with
  | done => exact ⟨rfl, rfl, by simp⟩
  | skip spelled known _ _ => exact absurd spelled (fresh _ List.mem_cons_self _ known)
  | @tool _ fields _ _ _ t unseen made _ ih =>
    have mine := recordId_of_tool made
    obtain ⟨rfl, rfl, others⟩ :=
      ih (List.nodup_cons.mp (List.map_cons ▸ distinct)).2 (fresh_of_nodup_cons mine distinct fresh)
    have own : toolOf? (.tool, fields) = some t := by rw [toolOf?, made]; rfl
    exact ⟨(List.filterMap_cons_some own).symm, (List.filterMap_cons_none rfl).symm,
      List.forall_mem_cons.mpr ⟨⟨⟨_, mine⟩, t, made⟩, others⟩⟩
  | @capability _ fields _ _ _ c unseen made _ ih =>
    have mine := recordId_of_capability made
    obtain ⟨rfl, rfl, others⟩ :=
      ih (List.nodup_cons.mp (List.map_cons ▸ distinct)).2 (fresh_of_nodup_cons mine distinct fresh)
    have own : capabilityOf? (.capability, fields) = some c := by rw [capabilityOf?, made]; rfl
    exact ⟨(List.filterMap_cons_none rfl).symm, (List.filterMap_cons_some own).symm,
      List.forall_mem_cons.mpr ⟨⟨⟨_, mine⟩, c, made⟩, others⟩⟩

private theorem exists_built (seen : List String) {records : List (NodeKind × Fields)}
    (builds : ∀ record ∈ records, Builds record) :
    ∃ tools capabilities, Built seen records tools capabilities := by
  induction records generalizing seen with
  | nil => exact ⟨_, _, .done⟩
  | cons record rest ih =>
    obtain ⟨kind, fields⟩ := record
    obtain ⟨⟨⟨id, mine⟩, made⟩, builds⟩ := List.forall_mem_cons.mp builds
    by_cases known : id ∈ seen
    · obtain ⟨tools, capabilities, later⟩ := ih seen builds
      exact ⟨_, _, .skip mine known later⟩
    · obtain ⟨tools, capabilities, later⟩ := ih (id :: seen) builds
      cases kind with
      | tool =>
        obtain ⟨t, made⟩ := made
        obtain rfl : id = t.id := Except.ok.inj (mine.symm.trans (recordId_of_tool made))
        exact ⟨_, _, .tool known made later⟩
      | capability =>
        obtain ⟨c, made⟩ := made
        obtain rfl : id = c.id := Except.ok.inj (mine.symm.trans (recordId_of_capability made))
        exact ⟨_, _, .capability known made later⟩

variable {fields fields' : Fields} {nodes nodes' edges : List Payload} {s s' : Snapshot}

theorem built_of_ofPayload (accepted : ofPayload (.record fields) = .ok s)
    (nodesListed : listed (fields.get "nodes") = some nodes)
    (edgesListed : listed (fields.get "edges") = some edges) :
    (∀ e ∈ nodes, IsNode e) ∧ (∀ e ∈ edges, IsEdge e) ∧
      Built [] (nodes.filterMap nodeRecord?) s.tools s.capabilities ∧
      (edges.filterMap unwrapped).mapM Edge.ofFields = .ok s.edges := by
  obtain ⟨rawNodes, entered, h⟩ := ok_of_bind accepted
  obtain ⟨rawEdges, entered', h⟩ := ok_of_bind h
  obtain ⟨nodeRecords, valid, h⟩ := ok_of_bind h
  obtain ⟨edgeRecords, valid', h⟩ := ok_of_bind h
  obtain ⟨⟨tools, capabilities⟩, run, h⟩ := ok_of_bind h
  obtain ⟨links, read, h⟩ := ok_of_bind h
  obtain rfl := Except.ok.inj h
  obtain rfl := Option.some.inj (nodesListed.symm.trans (entries_eq_ok_iff.mp entered))
  obtain rfl := Option.some.inj (edgesListed.symm.trans (entries_eq_ok_iff.mp entered'))
  obtain ⟨all, rfl⟩ := validNodes_eq_ok_iff.mp valid
  obtain ⟨all', rfl⟩ := validEdges_eq_ok_iff.mp valid'
  exact ⟨all, all', built_of_buildNodes run, read⟩

theorem ofPayload_eq_ok {tools : List Tool} {capabilities : List Capability} {links : List Edge}
    (nodesListed : listed (fields.get "nodes") = some nodes)
    (edgesListed : listed (fields.get "edges") = some edges) (all : ∀ e ∈ nodes, IsNode e)
    (all' : ∀ e ∈ edges, IsEdge e)
    (built : Built [] (nodes.filterMap nodeRecord?) tools capabilities)
    (read : (edges.filterMap unwrapped).mapM Edge.ofFields = .ok links) :
    ofPayload (.record fields) =
      .ok { tools := tools, capabilities := capabilities, edges := links } := by
  have entered : entries .nodes (fields.get "nodes") = .ok nodes :=
    entries_eq_ok_iff.mpr nodesListed
  have entered' : entries .edges (fields.get "edges") = .ok edges :=
    entries_eq_ok_iff.mpr edgesListed
  have valid : validNodes 0 nodes = .ok (nodes.filterMap nodeRecord?) :=
    validNodes_eq_ok_iff.mpr ⟨all, rfl⟩
  have valid' : validEdges 0 edges = .ok (edges.filterMap unwrapped) :=
    validEdges_eq_ok_iff.mpr ⟨all', rfl⟩
  simp only [ofPayload, entered, entered', valid, valid', built.buildNodes_eq_ok, read, bind,
    Except.bind]
  rfl

/-- Two snapshots with the same edges and the same nodes in any order, each with its own id. -/
structure Rearranged (s s' : Snapshot) : Prop where
  tools : s.tools.Perm s'.tools
  capabilities : s.capabilities.Perm s'.capabilities
  edges : s.edges = s'.edges
  distinct : (s.tools.map Tool.id ++ s.capabilities.map Capability.id).Nodup

theorem Rearranged.symm (moved : Rearranged s s') : Rearranged s' s where
  tools := moved.tools.symm
  capabilities := moved.capabilities.symm
  edges := moved.edges.symm
  distinct := ((moved.tools.map _).append (moved.capabilities.map _)).nodup_iff.mp moved.distinct

theorem rearranged_of_perm (perm : nodes.Perm nodes') (distinct : DistinctIds nodes)
    (accepted : ofPayload (.record fields) = .ok s)
    (accepted' : ofPayload (.record fields') = .ok s')
    (nodesListed : listed (fields.get "nodes") = some nodes)
    (nodesListed' : listed (fields'.get "nodes") = some nodes')
    (edgesListed : listed (fields.get "edges") = some edges)
    (edgesListed' : listed (fields'.get "edges") = some edges) : Rearranged s s' := by
  obtain ⟨-, -, built, read⟩ := built_of_ofPayload accepted nodesListed edgesListed
  obtain ⟨-, -, built', read'⟩ := built_of_ofPayload accepted' nodesListed' edgesListed'
  have records := perm.filterMap nodeRecord?
  have distinct' : DistinctIds nodes' :=
    (records.map fun record : NodeKind × Fields => recordId record.2).nodup_iff.mp distinct
  obtain ⟨tools, capabilities, -⟩ := built.eq_filterMap distinct (by simp)
  obtain ⟨tools', capabilities', -⟩ := built'.eq_filterMap distinct' (by simp)
  refine ⟨?_, ?_, Except.ok.inj (read.symm.trans read'), nodup_ids accepted⟩
  · rw [tools, tools']
    exact records.filterMap toolOf?
  · rw [capabilities, capabilities']
    exact records.filterMap capabilityOf?

/-- Whether two raw snapshots have the same edges and the same nodes, each with its own id, in any
order. -/
def Permuted (payload payload' : Payload) : Prop :=
  ∃ fields fields' nodes nodes' edges, payload = .record fields ∧ payload' = .record fields' ∧
    listed (Fields.get fields "nodes") = some nodes ∧
    listed (Fields.get fields' "nodes") = some nodes' ∧
    listed (Fields.get fields "edges") = some edges ∧
    listed (Fields.get fields' "edges") = some edges ∧ nodes.Perm nodes' ∧ DistinctIds nodes

/-- What is accepted is accepted in any order of its nodes. -/
theorem exists_rearranged_of_permuted {payload payload' : Payload}
    (permuted : Permuted payload payload') (accepted : ofPayload payload = .ok s) :
    ∃ s', ofPayload payload' = .ok s' ∧ Rearranged s s' := by
  obtain ⟨fields, fields', nodes, nodes', edges, rfl, rfl, nodesListed, nodesListed', edgesListed,
    edgesListed', perm, distinct⟩ := permuted
  obtain ⟨all, all', built, read⟩ := built_of_ofPayload accepted nodesListed edgesListed
  obtain ⟨-, -, builds⟩ := built.eq_filterMap distinct (by simp)
  have builds' : ∀ record ∈ nodes'.filterMap nodeRecord?, Builds record := fun record member =>
    builds record ((perm.filterMap nodeRecord?).mem_iff.mpr member)
  obtain ⟨tools, capabilities, built'⟩ := exists_built [] builds'
  have accepted' := ofPayload_eq_ok nodesListed' edgesListed'
    (fun e member => all e (perm.mem_iff.mpr member)) all' built' read
  exact ⟨_, accepted', rearranged_of_perm perm distinct accepted accepted' nodesListed
    nodesListed' edgesListed edgesListed'⟩

end CapabilityAtlas.Snapshot
