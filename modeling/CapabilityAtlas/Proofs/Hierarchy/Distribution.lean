import CapabilityAtlas.Proofs.Hierarchy.Instance
import CapabilityAtlas.Proofs.Hierarchy.Membership

set_option autoImplicit false
set_option relaxedAutoImplicit false

/-!
How the tools are distributed over a hierarchy. The pass over the tools puts each of them either
into the nodes of all its capabilities or among the orphans, so that none is lost or counted twice.
-/

namespace CapabilityAtlas.Hierarchy

variable {payload : Payload} {s : Snapshot} {t : Tool}

section Pass

private def placedTools (s : Snapshot) (tools : List Tool) : List Placement :=
  (placeTools (activeIds s) s.edges tools).filter (fun p => !p.parents.isEmpty)

private def looseTools (s : Snapshot) (tools : List Tool) : List Tool :=
  ((placeTools (activeIds s) s.edges tools).filter (fun p => p.parents.isEmpty)).map
    Placement.tool

/-- What the pass has filled after some tools. -/
private def distributed (s : Snapshot) (tools : List Tool) : Distribution where
  drafts := draftTable (s.capabilities.filter isActive) (draftOf s (placedTools s tools))
  placed := (placedTools s tools).map (fun p => (p.tool.id, p.tool))
  orphans := looseTools s tools
  shared := ((placedTools s tools).filter Placement.isShared).length

private theorem placedTools_append (first second : List Tool) :
    placedTools s (first ++ second) = placedTools s first ++ placedTools s second := by
  simp [placedTools, placeTools]

private theorem looseTools_append (first second : List Tool) :
    looseTools s (first ++ second) = looseTools s first ++ looseTools s second := by
  simp [looseTools, placeTools]

private theorem addTools_draftOf (placements : List Placement) (p : Placement) (c : Capability) :
    (draftOf s placements c).addTools (if c.id ∈ p.parents then [p.instanceIn c.id] else []) =
      draftOf s (placements ++ [p]) c := by
  have later : instancesIn (placements ++ [p]) c.id = instancesIn placements c.id ++
      (if c.id ∈ p.parents then [p.instanceIn c.id] else []) := by
    rw [instancesIn, List.filter_append, List.map_append]
    by_cases inside : c.id ∈ p.parents
    · simp [instancesIn, inside]
    · simp [instancesIn, inside]
  rw [draftOf, draftOf, entryOf, entryOf, later]
  rfl

private theorem length_filter_singleton (p : Placement) (count : Nat) :
    count + ([p].filter Placement.isShared).length =
      if p.isShared then count + 1 else count := by
  cases shared : p.isShared
  · simp [shared]
  · simp [shared]

private theorem distribute_eq_ok (nodup : (activeIds s).Nodup) {table : Keyed (List String)}
    {before : List Tool} (fresh : t.id ∉ before.map Tool.id)
    (listed : table.get? t.id = some (toolParents (activeIds s) s.edges t)) :
    distribute table (distributed s before) t = .ok (distributed s (before ++ [t])) := by
  unfold distribute
  rw [listed]
  by_cases orphan : (toolParents (activeIds s) s.edges t).isEmpty
  · have unplaced : placedTools s [t] = [] := by simp [placedTools, placeTools, orphan]
    have one : looseTools s [t] = [t] := by simp [looseTools, placeTools, orphan]
    simp only [Option.getD_some, if_pos orphan, distributed, placedTools_append,
      looseTools_append, unplaced, one, List.append_nil]
  · have one : placedTools s [t] =
        [{ tool := t, parents := toolParents (activeIds s) s.edges t }] := by
      simp [placedTools, placeTools, orphan]
    have unplaced : looseTools s [t] = [] := by simp [looseTools, placeTools, orphan]
    have installed : install (distributed s before).drafts
        { tool := t, parents := toolParents (activeIds s) s.edges t } =
          .ok (distributed s (before ++ [t])).drafts := by
      refine (install_eq_ok nodup (nodup_firstOccurrences _)
        fun parent inside => mem_activeIds_of_toolParents inside).trans ?_
      rw [distributed, placedTools_append, one]
      congr 2
      funext c
      exact addTools_draftOf (placedTools s before) _ c
    have new : t.id ∉ (distributed s before).placed.keys := by
      intro known
      obtain ⟨_, held, same⟩ := List.mem_map.mp known
      obtain ⟨p, hp, rfl⟩ := List.mem_map.mp held
      obtain ⟨u, hu, rfl⟩ := List.mem_map.mp (List.mem_filter.mp hp).1
      exact fresh (List.mem_map.mpr ⟨u, hu, same⟩)
    simp only [Option.getD_some, if_neg orphan, installed, Keyed.put_of_not_mem new]
    simp only [distributed, placedTools_append, looseTools_append, unplaced, one, List.map_append,
      List.append_nil, List.filter_append, List.length_append, length_filter_singleton]
    rfl

private theorem distributeAll_eq_ok (nodup : (activeIds s).Nodup) {table : Keyed (List String)}
    (tools before : List Tool) (distinct : ((before ++ tools).map Tool.id).Nodup)
    (listed : ∀ t ∈ tools, table.get? t.id = some (toolParents (activeIds s) s.edges t)) :
    tools.foldlM (distribute table) (distributed s before) =
      .ok (distributed s (before ++ tools)) := by
  induction tools generalizing before with
  | nil =>
    rw [List.append_nil]
    rfl
  | cons t rest ih =>
    have fresh : t.id ∉ before.map Tool.id := by
      intro known
      rw [List.map_append, List.nodup_append] at distinct
      exact distinct.2.2 _ known _ (by simp) rfl
    rw [List.foldlM_cons, distribute_eq_ok nodup fresh (listed t List.mem_cons_self)]
    refine (ih (before ++ [t]) (by simpa using distinct)
      fun u hu => listed u (List.mem_cons_of_mem _ hu)).trans ?_
    rw [List.append_assoc]
    rfl

/-- The pass over all tools does not fail, and what it fills is the hierarchy. -/
theorem distributeTools_eq_ok (accepted : Snapshot.ofPayload payload = .ok s) :
    distributeTools s (draftTable (s.capabilities.filter isActive) (draftOf s [])) = .ok {
      drafts := draftTable (s.capabilities.filter isActive) (draftOf s (build s).placements)
      placed := (build s).placements.map (fun p => (p.tool.id, p.tool))
      orphans := (build s).orphans
      shared := (build s).hyperedges.length } := by
  have distinct := nodup_toolIds accepted
  refine distributeAll_eq_ok (nodup_activeIds accepted) s.tools [] distinct fun t member => ?_
  rw [membershipTable_eq distinct]
  exact Keyed.get?_of_mem (by rw [Keyed.keys, List.map_map]; exact distinct)
    (List.mem_map_of_mem member)

end Pass

/-- The used capabilities that a tool declares as parents, followed by the used sources of the edges
that make it a member, each once. -/
def homes (s : Snapshot) (t : Tool) : List String :=
  (t.parents.filter (fun id => id ∈ activeIds s) ++
    (s.edges.filter (fun e => (e.relation = .contains ∨ e.relation = .hierarchy) ∧
      e.source ∈ activeIds s ∧ e.target = t.id)).map Edge.source).eraseDups

def instanceOf (s : Snapshot) (t : Tool) (id : String) : ToolInstance :=
  Placement.instanceIn { tool := t, parents := homes s t } id

theorem toolParents_eq_homes (s : Snapshot) (t : Tool) :
    toolParents (activeIds s) s.edges t = homes s t := by
  have edges : s.edges.filter (attaches (activeIds s) t.id) =
      s.edges.filter (fun e => (e.relation = .contains ∨ e.relation = .hierarchy) ∧
        e.source ∈ activeIds s ∧ e.target = t.id) := by
    refine List.filter_congr fun e _ => ?_
    rw [Bool.eq_iff_iff]
    simp [attaches, and_assoc]
  have declared : t.parents.filter (activeIds s).contains =
      t.parents.filter (fun id => id ∈ activeIds s) :=
    List.filter_congr fun id _ => List.contains_eq_mem id _
  rw [toolParents, firstOccurrences_eq_eraseDups, edges, declared, homes]

private theorem nodup_homes (s : Snapshot) (t : Tool) : (homes s t).Nodup := by
  rw [← toolParents_eq_homes]
  exact nodup_firstOccurrences _

theorem perm_tools (s : Snapshot) :
    ((build s).placements.map Placement.tool ++ (build s).orphans).Perm s.tools := by
  have placed : (placeTools (activeIds s) s.edges s.tools).map Placement.tool = s.tools :=
    List.map_map.trans (List.map_id _)
  have split := List.filter_append_perm (fun p : Placement => p.parents.isEmpty)
    (placeTools (activeIds s) s.edges s.tools)
  have all := (List.perm_append_comm.trans split).map Placement.tool
  rw [placed, List.map_append] at all
  exact all

theorem mem_orphans_iff (member : t ∈ s.tools) : t ∈ (build s).orphans ↔ homes s t = [] := by
  rw [← toolParents_eq_homes]
  constructor
  · intro orphan
    obtain ⟨p, hp, rfl⟩ := List.mem_map.mp orphan
    obtain ⟨listed, empty⟩ := List.mem_filter.mp hp
    obtain ⟨u, -, rfl⟩ := List.mem_map.mp listed
    exact List.isEmpty_iff.mp empty
  · intro parentless
    refine List.mem_map.mpr ⟨{ tool := t, parents := [] }, List.mem_filter.mpr ⟨?_, rfl⟩, rfl⟩
    exact List.mem_map.mpr ⟨t, member, congrArg (Placement.mk t) parentless⟩

private theorem instancesIn_placements (s : Snapshot) (id : String) :
    instancesIn (build s).placements id =
      (s.tools.filter (fun t => id ∈ homes s t)).map (fun t => instanceOf s t id) := by
  have placements : (build s).placements =
      (s.tools.filter (fun t => !(homes s t).isEmpty)).map
        (fun t => { tool := t, parents := homes s t }) := by
    change ((s.tools.map _).filter _) = _
    simp only [List.filter_map, ← toolParents_eq_homes]
    rfl
  rw [instancesIn, placements, List.filter_map, List.map_map, List.filter_filter]
  have inside : ∀ t ∈ s.tools,
      ((homes s t).contains id && !(homes s t).isEmpty) = decide (id ∈ homes s t) := by
    intro t _
    by_cases member : id ∈ homes s t
    · have nonempty := List.ne_nil_of_mem member
      simp [member, nonempty]
    · simp [member]
  exact congrArg _ (List.filter_congr inside)

private theorem exists_entry?_of_mem_homes (accepted : Snapshot.ofPayload payload = .ok s)
    (member : t ∈ s.tools) {id : String} (inside : id ∈ homes s t) :
    ∃ e, entry? (build s) id = some e ∧
      e.tools.filter (fun i => i.tool.id = t.id) = [instanceOf s t id] := by
  have active : id ∈ activeIds s := by
    rw [← toolParents_eq_homes] at inside
    exact mem_activeIds_of_toolParents inside
  obtain ⟨c, used, rfl⟩ := List.mem_map.mp active
  have entries : ((build s).entries.map Entry.id).Nodup :=
    map_id_entries ▸ nodup_activeIds accepted
  refine ⟨entryOf (build s).parents (build s).levels (build s).placements c,
    find?_eq_some_of_nodup entries (List.mem_map_of_mem used), ?_⟩
  have tools : ((s.tools.filter (fun t => c.id ∈ homes s t)).map Tool.id).Nodup :=
    (nodup_toolIds accepted).sublist (List.filter_sublist.map _)
  have listed : t ∈ s.tools.filter (fun t => c.id ∈ homes s t) :=
    List.mem_filter.mpr ⟨member, decide_eq_true inside⟩
  change (instancesIn (build s).placements c.id).filter (fun i => i.tool.id = t.id) = _
  rw [instancesIn_placements, List.filter_map]
  exact congrArg _ (filter_eq_singleton tools listed)

private theorem instancesOf_eq (accepted : Snapshot.ofPayload payload = .ok s)
    (member : t ∈ s.tools) :
    (build s).instancesOf t.id = (homes s t).map (instanceOf s t) := by
  rw [instancesOf, parentsOf_eq accepted member, toolParents_eq_homes, List.map_eq_flatMap]
  refine List.flatMap_congr fun id inside => ?_
  obtain ⟨e, found, tools⟩ := exists_entry?_of_mem_homes accepted member inside
  rw [found]
  exact tools

/-- No tool of an accepted snapshot is lost or counted twice. The pass over the tools fills the
nodes, the placed tools, the orphans and the number of shared tools of the hierarchy. Every tool is
either placed or an orphan; it belongs to its homes, in each of which it has one instance. -/
theorem tools_distributed (accepted : Snapshot.ofPayload payload = .ok s) :
    membershipTable (activeIds s) s.edges s.tools = s.tools.map (fun t => (t.id, homes s t)) ∧
    (∃ drafts, distributeTools s (draftTable (s.capabilities.filter isActive) (draftOf s [])) =
        .ok {
          drafts := drafts
          placed := (build s).placements.map (fun p => (p.tool.id, p.tool))
          orphans := (build s).orphans
          shared := (build s).stats.hyperedges } ∧
      drafts.map (fun draft => draft.2.entry) = (build s).entries) ∧
    ((build s).placements.map Placement.tool ++ (build s).orphans).Perm s.tools ∧
    (((build s).placements.map Placement.tool ++ (build s).orphans).map Tool.id).Nodup ∧
    (∀ t ∈ s.tools, (build s).parentsOf t.id = homes s t ∧ (homes s t).Nodup ∧
      (t ∈ (build s).orphans ↔ homes s t = []) ∧
      (build s).instancesOf t.id = (homes s t).map (instanceOf s t)) ∧
    (∀ node ∈ (build s).walk, node.entry.tools =
      (s.tools.filter (fun t => node.id ∈ homes s t)).map (fun t => instanceOf s t node.id)) ∧
    (build s).stats.tools + (build s).stats.orphans = s.tools.length ∧
    (build s).stats.hyperedges = (build s).hyperedges.length := by
  have distinct := nodup_toolIds accepted
  have perm := perm_tools s
  refine ⟨?_, ⟨_, distributeTools_eq_ok accepted, List.map_map⟩, perm,
    (perm.map Tool.id).nodup_iff.mpr distinct, fun t member => ⟨?_, nodup_homes s t,
      mem_orphans_iff member, instancesOf_eq accepted member⟩, ?_, ?_, rfl⟩
  · rw [membershipTable_eq distinct]
    simp only [toolParents_eq_homes]
  · rw [parentsOf_eq accepted member, toolParents_eq_homes]
  · intro node member
    obtain ⟨c, -, same⟩ := entry_of_mem_walk_build (nodup_activeIds accepted) member
    rw [Tree.id, same]
    exact instancesIn_placements s c.id
  · have length := perm.length_eq
    rw [List.length_append, List.length_map] at length
    exact length

theorem tools_distributed_of_shared :
    ∃ s, Snapshot.ofPayload (sharedToolPayload "t") = .ok s ∧
      (build s).stats.tools + (build s).stats.orphans = 1 ∧
      ((build s).instancesOf "t").map ToolInstance.id = ["t__c", "t__d"] := by
  obtain ⟨s, accepted⟩ : ∃ s, Snapshot.ofPayload (sharedToolPayload "t") = .ok s := ⟨_, rfl⟩
  obtain ⟨-, -, -, -, each, -, total, -⟩ := tools_distributed accepted
  obtain rfl := Except.ok.inj accepted
  refine ⟨_, rfl, total, ?_⟩
  have instances : instancesOf _ "t" = _ := (each _ List.mem_cons_self).2.2.2
  rw [instances]
  decide +kernel

end CapabilityAtlas.Hierarchy
