import CapabilityAtlas.Proofs.Hierarchy.Distribution
import CapabilityAtlas.Proofs.Layout.Bundle
import Mathlib.Algebra.BigOperators.Group.List.Basic
import Mathlib.Algebra.Ring.Nat

set_option autoImplicit false
set_option relaxedAutoImplicit false

/-!
What the paths of a layout stand for. Each membership of a tool on the outer ring has a path, and so
has each side edge of the hierarchy. Orphans belong nowhere, so with or without them on the ring
there are as many paths as memberships and side edges together.
-/

namespace CapabilityAtlas.Layout

open CapabilityAtlas.Hierarchy

variable {payload : Payload} {s : Snapshot}

/-- The connection of a tool with the parent of the given number, the first of which is zero. -/
def membershipOf (toolId : String) (number : Nat) (parent : String) : Connection where
  kind := if number = 0 then .hierarchy else .hyperedge
  source := parent
  target := toolId
  relation := .contains

private theorem memberships_eq_mapIdx (parents : List String) (toolId : String) :
    memberships parents toolId = parents.mapIdx (membershipOf toolId) := by
  cases parents with
  | nil => rfl
  | cons first rest =>
    rw [memberships, List.mapIdx_cons]
    congr 1
    apply List.ext_getElem
    · rw [List.length_map, List.length_mapIdx]
    · intro number _ _
      rw [List.getElem_map, List.getElem_mapIdx]
      rfl

def linkConnection (l : CapabilityLink) : Connection where
  kind := .capabilityLink
  source := l.source
  target := l.target
  relation := l.relation

def flowConnection (l : ToolLink) : Connection where
  kind := .provides
  source := l.source
  target := l.target
  relation := ToolLink.relation

theorem connections_eq (h : Hierarchy) (toolIds : List String) :
    connections h toolIds =
      toolIds.flatMap (fun id => (h.parentsOf id).mapIdx (membershipOf id)) ++
        h.capabilityLinks.map linkConnection ++ h.toolLinks.map flowConnection := by
  rw [connections]
  simp only [memberships_eq_mapIdx]
  rfl

private theorem length_connections (h : Hierarchy) (toolIds : List String) :
    (connections h toolIds).length =
      (toolIds.map (fun id => (h.parentsOf id).length)).sum + h.capabilityLinks.length +
        h.toolLinks.length := by
  rw [connections_eq, List.length_append, List.length_append, List.length_map, List.length_map,
    List.length_flatMap]
  simp only [List.length_mapIdx]

private theorem parentsOf_placed (accepted : Snapshot.ofPayload payload = .ok s) {p : Placement}
    (placed : p ∈ (build s).placements) : (build s).parentsOf p.tool.id = p.parents := by
  obtain ⟨member, parents, -⟩ := of_mem_placements placed
  rw [parentsOf_eq accepted member, parents]

private theorem parentsOf_orphan (accepted : Snapshot.ofPayload payload = .ok s) {t : Tool}
    (orphan : t ∈ (build s).orphans) : (build s).parentsOf t.id = [] := by
  have member : t ∈ s.tools := (perm_tools s).mem_iff.mp (List.mem_append_right _ orphan)
  rw [parentsOf_eq accepted member, toolParents_eq_homes]
  exact (mem_orphans_iff member).mp orphan

private theorem perm_ringToolIds (h : Hierarchy) (includeOrphans : Bool) :
    (ringToolIds h includeOrphans).Perm (h.placements.map (fun p => p.tool.id) ++
      (if includeOrphans then h.orphans else []).map Tool.id) := by
  have tools : (ringTools h includeOrphans).map Tool.id = h.placements.map (fun p => p.tool.id) ++
      (if includeOrphans then h.orphans else []).map Tool.id := by
    rw [ringTools, List.map_append, List.map_map]
    rfl
  rw [← tools]
  exact (perm_flatten_toolGroups _).map Tool.id

/-- Around the ring, all tools together have as many parents as the placed ones. -/
theorem sum_parents_ringToolIds (accepted : Snapshot.ofPayload payload = .ok s)
    (includeOrphans : Bool) :
    ((ringToolIds (build s) includeOrphans).map
        (fun id => ((build s).parentsOf id).length)).sum =
      ((build s).placements.map (fun p => p.parents.length)).sum := by
  have placed : ((build s).placements.map (fun p => p.tool.id)).map
      (fun id => ((build s).parentsOf id).length) =
        (build s).placements.map (fun p => p.parents.length) := by
    rw [List.map_map]
    refine List.map_congr_left fun p member => ?_
    exact congrArg List.length (parentsOf_placed accepted member)
  have loose : ∀ t ∈ (if includeOrphans then (build s).orphans else []),
      ((build s).parentsOf t.id).length = 0 := by
    intro t member
    cases includeOrphans with
    | false => simp at member
    | true => rw [parentsOf_orphan accepted member, List.length_nil]
  have unconnected : (((if includeOrphans then (build s).orphans else []).map Tool.id).map
      (fun id => ((build s).parentsOf id).length)).sum = 0 := by
    rw [List.map_map]
    apply List.sum_eq_zero
    intro count member
    obtain ⟨t, ht, rfl⟩ := List.mem_map.mp member
    exact loose t ht
  rw [((perm_ringToolIds (build s) includeOrphans).map _).sum_eq, List.map_append, List.sum_append,
    placed, unconnected, Nat.add_zero]

section Bundle

variable {α : Type} [NatCast α] [LT α] [LE α] [DecidableLT α] [DecidableLE α] [Add α] [Sub α]
  [Mul α] [Div α] [Circular α] [OfBinary α]

/-- Whatever the configuration and the tension, the paths of an accepted snapshot exist and nothing
is left out. They are, in this order, one for each parent of each tool on the ring, one for each
link between capabilities and one for each flow of data. -/
theorem bundle_complete (accepted : Snapshot.ofPayload payload = .ok s) (c : RadialConfig α)
    (tension : α) :
    (∃ paths, bundle (build s) (place (build s) c) tension = .ok paths ∧
      paths.map BundledPath.connection =
        ((place (build s) c).tools.map RingNode.id).flatMap
            (fun id => ((build s).parentsOf id).mapIdx (membershipOf id)) ++
          (build s).capabilityLinks.map linkConnection ++
          (build s).toolLinks.map flowConnection ∧
      paths.length = ((build s).placements.map (fun p => p.parents.length)).sum +
        (build s).capabilityLinks.length + (build s).toolLinks.length) ∧
    ((place (build s) c).tools.map RingNode.id).Perm
      ((build s).placements.map (fun p => p.tool.id) ++
        (if c.includeOrphans then (build s).orphans else []).map Tool.id) ∧
    (∀ p ∈ (build s).placements, (build s).parentsOf p.tool.id = p.parents) ∧
    (∀ t ∈ (build s).orphans, (build s).parentsOf t.id = []) ∧
    drawn (build s) (place (build s) c) =
      connections (build s) ((place (build s) c).tools.map RingNode.id) := by
  have nodup := nodup_activeIds accepted
  obtain ⟨paths, run, standFor, -⟩ := exists_bundle_eq_ok nodup c tension
  have length : paths.length =
      (connections (build s) (ringToolIds (build s) c.includeOrphans)).length := by
    rw [← standFor, List.length_map]
  rw [map_id_tools_place]
  refine ⟨⟨paths, run, ?_, ?_⟩, perm_ringToolIds _ _, ?_, ?_, drawn_place nodup c⟩
  · rw [standFor, connections_eq]
  · rw [length, length_connections, sum_parents_ringToolIds accepted]
  · exact fun p placed => parentsOf_placed accepted placed
  · exact fun t orphan => parentsOf_orphan accepted orphan

end Bundle

theorem bundle_complete_of_shared :
    ∃ s paths, Snapshot.ofPayload (sharedToolPayload "t") = .ok s ∧
      bundle (build s) (place (build s) (canvasConfig (800 : Float) 600 none)) 0.85 = .ok paths ∧
      paths.map BundledPath.connection =
        [{ kind := .hierarchy, source := "c", target := "t", relation := .contains },
          { kind := .hyperedge, source := "d", target := "t", relation := .contains }] := by
  obtain ⟨s, accepted⟩ : ∃ s, Snapshot.ofPayload (sharedToolPayload "t") = .ok s := ⟨_, rfl⟩
  obtain ⟨⟨paths, run, standFor, -⟩, ring, -⟩ :=
    bundle_complete accepted (canvasConfig (800 : Float) 600 none) 0.85
  obtain rfl := Except.ok.inj accepted
  refine ⟨_, paths, rfl, run, ?_⟩
  have alone : (place (build _) (canvasConfig (800 : Float) 600 none)).tools.map RingNode.id =
      ["t"] := List.perm_singleton.mp ring
  rw [standFor, alone]
  decide +kernel

end CapabilityAtlas.Layout
