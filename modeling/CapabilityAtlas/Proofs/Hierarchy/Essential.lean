import CapabilityAtlas.Proofs.Hierarchy.Distribution
import CapabilityAtlas.Proofs.Record.Usage

set_option autoImplicit false
set_option relaxedAutoImplicit false

/-!
What a hierarchy is built from. Capabilities that have not been used, and edges at anything but used
capabilities and placed tools, leave no trace in it except the number of discarded capabilities. The
passes over the edges each have a test of their own, and an edge that passes one of them joins ids
that are shown.
-/

namespace CapabilityAtlas.Hierarchy

variable {payload : Payload} {s : Snapshot} {t : Tool} {e : Edge}

/-- Whether an id is that of a used capability or of a tool that has a place. -/
def IsShown (s : Snapshot) (id : String) : Prop :=
  id ∈ activeIds s ∨ ∃ p ∈ (build s).placements, p.tool.id = id

instance decidableIsShown (s : Snapshot) (id : String) : Decidable (IsShown s id) :=
  inferInstanceAs (Decidable (_ ∨ _))

/-- A snapshot without its unused capabilities and without the edges at ids that are not shown. -/
def essential (s : Snapshot) : Snapshot where
  tools := s.tools
  capabilities := s.capabilities.filter (fun c => ¬ c.usageCount ≤ 0)
  edges := s.edges.filter (fun e => IsShown s e.source ∧ IsShown s e.target)

private theorem filter_edges_essential {keep : Edge → Bool}
    (shown : ∀ e ∈ s.edges, keep e → IsShown s e.source ∧ IsShown s e.target) :
    (essential s).edges.filter keep = s.edges.filter keep := by
  change (s.edges.filter _).filter keep = _
  rw [List.filter_filter]
  refine List.filter_congr fun e member => ?_
  by_cases kept : keep e
  · simp [kept, shown e member kept]
  · simp [kept]

section Passes

private theorem isShown_of_nests (kept : nests (activeIds s) e) :
    IsShown s e.source ∧ IsShown s e.target := by
  simp only [nests, Bool.and_eq_true, List.contains_iff_mem] at kept
  exact ⟨Or.inl kept.1.1.2, Or.inl kept.1.2⟩

private theorem isShown_of_attaches (tool : t ∈ s.tools) (member : e ∈ s.edges)
    (kept : attaches (activeIds s) t.id e) : IsShown s e.source ∧ IsShown s e.target := by
  have listed : e.source ∈ toolParents (activeIds s) s.edges t := by
    rw [toolParents, mem_firstOccurrences]
    refine List.mem_append_right _ ?_
    exact List.mem_map_of_mem (List.mem_filter.mpr ⟨member, kept⟩)
  have placed := mem_placements tool (List.ne_nil_of_mem listed)
  have target : t.id = e.target := by
    simp only [attaches, Bool.and_eq_true, decide_eq_true_eq] at kept
    exact kept.2.symm
  exact ⟨Or.inl (mem_activeIds_of_toolParents listed), Or.inr ⟨_, placed, target⟩⟩

private theorem isShown_of_linked
    (kept : (activeIds s).contains e.source && (activeIds s).contains e.target) :
    IsShown s e.source ∧ IsShown s e.target := by
  simp only [Bool.and_eq_true, List.contains_iff_mem] at kept
  exact ⟨Or.inl kept.1, Or.inl kept.2⟩

private theorem isShown_of_related (kept : related (build s).placements e.source e.target) :
    IsShown s e.source ∧ IsShown s e.target := by
  simp only [related, List.any_eq_true, Bool.and_eq_true, decide_eq_true_eq] at kept
  obtain ⟨p, first, source, q, second, target, -⟩ := kept
  exact ⟨Or.inr ⟨p, first, source⟩, Or.inr ⟨q, second, target⟩⟩

private theorem firstParents_essential :
    firstParents (essential s).edges (activeIds s) = firstParents s.edges (activeIds s) := by
  have kept : (essential s).edges.filter (nests (activeIds s)) =
      s.edges.filter (nests (activeIds s)) :=
    filter_edges_essential fun _ _ => isShown_of_nests
  rw [firstParents, kept, firstParents]

private theorem toolParents_essential (tool : t ∈ s.tools) :
    toolParents (activeIds s) (essential s).edges t = toolParents (activeIds s) s.edges t := by
  have kept : (essential s).edges.filter (attaches (activeIds s) t.id) =
      s.edges.filter (attaches (activeIds s) t.id) :=
    filter_edges_essential fun _ => isShown_of_attaches tool
  rw [toolParents, kept, toolParents]

theorem placeTools_essential :
    placeTools (activeIds s) (essential s).edges s.tools =
      placeTools (activeIds s) s.edges s.tools := by
  refine List.map_congr_left fun t tool => ?_
  rw [toolParents_essential tool]

private theorem linksBetween_essential :
    linksBetween (activeIds s) (essential s).edges = linksBetween (activeIds s) s.edges := by
  unfold linksBetween
  rw [filter_edges_essential fun _ _ => isShown_of_linked]

private theorem dataFlow_essential :
    dataFlow (build s).placements (essential s).edges = dataFlow (build s).placements s.edges := by
  unfold dataFlow
  rw [filter_edges_essential fun e _ kept => isShown_of_related (Bool.and_eq_true_iff.mp kept).2]

end Passes

theorem capabilities_essential (accepted : Snapshot.ofPayload payload = .ok s) :
    (essential s).capabilities = s.capabilities.filter isActive := by
  refine List.filter_congr fun c member => ?_
  rw [isActive, decide_eq_decide]
  exact Snapshot.usageCount_not_le_zero_iff accepted member

private theorem filter_isActive_essential (accepted : Snapshot.ofPayload payload = .ok s) :
    (essential s).capabilities.filter isActive = s.capabilities.filter isActive := by
  rw [capabilities_essential accepted, List.filter_filter]
  simp only [Bool.and_self]

private theorem activeIds_essential (accepted : Snapshot.ofPayload payload = .ok s) :
    activeIds (essential s) = activeIds s := by
  rw [activeIds, filter_isActive_essential accepted, activeIds]

private theorem build_essential_eq (accepted : Snapshot.ofPayload payload = .ok s) :
    build (essential s) = { build s with discarded := 0 } := by
  have used := filter_isActive_essential accepted
  have ids : (s.capabilities.filter isActive).map Capability.id = activeIds s := rfl
  have tools : (essential s).tools = s.tools := rfl
  have flow : dataFlow ((placeTools (activeIds s) s.edges s.tools).filter
      (fun p => !p.parents.isEmpty)) (essential s).edges =
        dataFlow ((placeTools (activeIds s) s.edges s.tools).filter
          (fun p => !p.parents.isEmpty)) s.edges := dataFlow_essential
  have discarded : (essential s).capabilities.length -
      (s.capabilities.filter isActive).length = 0 := by
    rw [capabilities_essential accepted, Nat.sub_self]
  simp only [build, used, ids, tools, firstParents_essential, placeTools_essential,
    linksBetween_essential, flow, discarded]

/-- An accepted snapshot without what is not shown has the same hierarchy, in all that it holds and
all that it counts, except that no capability is discarded. -/
theorem build_essential (accepted : Snapshot.ofPayload payload = .ok s) :
    build (essential s) = { build s with discarded := 0 } ∧
    assemble (essential s) = .ok { build s with discarded := 0 } ∧
    (build (essential s)).stats = { (build s).stats with discarded := 0 } ∧
    (build (essential s)).empties = (build s).empties ∧
    membershipTable (activeIds s) (essential s).edges (essential s).tools =
      membershipTable (activeIds s) s.edges s.tools := by
  have same := build_essential_eq accepted
  have nodup : (activeIds (essential s)).Nodup :=
    activeIds_essential accepted ▸ nodup_activeIds accepted
  refine ⟨same, ?_, ?_, ?_, ?_⟩
  · rw [assemble_eq_ok nodup, same]
  · rw [same]
    rfl
  · rw [same]
    rfl
  · have distinct := nodup_toolIds accepted
    have tools : (essential s).tools = s.tools := rfl
    rw [tools, membershipTable_eq distinct, membershipTable_eq distinct]
    exact List.map_congr_left fun t tool => congrArg (t.id, ·) (toolParents_essential tool)

def unusedPayload : Payload :=
  .record [
    ("nodes", .list [
      .record [("id", .text "c"), ("type", .text "capability"), ("usage_count", .int 1)],
      .record [("id", .text "u"), ("type", .text "capability"), ("usage_count", .int 0)],
      .record [("id", .text "t"), ("type", .text "tool")]]),
    ("edges", .list ([("u", "c"), ("c", "t"), ("c", "x")].map (fun ends =>
      .record [("source", .text ends.1), ("target", .text ends.2),
        ("edge_type", .text "contains")])))]

theorem build_essential_of_unused :
    ∃ s, Snapshot.ofPayload unusedPayload = .ok s ∧ (build s).discarded = 1 ∧
      (essential s).capabilities.map Capability.id = ["c"] ∧
      (essential s).edges.map Edge.target = ["t"] ∧
      build (essential s) = { build s with discarded := 0 } ∧
      (build (essential s)).stats = { (build s).stats with discarded := 0 } := by
  obtain ⟨s, accepted, discarded, capabilities, edges⟩ : ∃ s,
      Snapshot.ofPayload unusedPayload = .ok s ∧ (build s).discarded = 1 ∧
      (essential s).capabilities.map Capability.id = ["c"] ∧
      (essential s).edges.map Edge.target = ["t"] :=
    ⟨_, rfl, by decide +kernel, by decide +kernel, by decide +kernel⟩
  obtain ⟨same, -, stats, -⟩ := build_essential accepted
  exact ⟨s, accepted, discarded, capabilities, edges, same, stats⟩

end CapabilityAtlas.Hierarchy
