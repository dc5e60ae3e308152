import CapabilityAtlas.Proofs.Hierarchy.Assembly

set_option autoImplicit false
set_option relaxedAutoImplicit false

/-!
The tools that have a place in a hierarchy. Each belongs to at least one used capability, and its id
is that of no other placed tool and of no used capability.
-/

namespace CapabilityAtlas.Hierarchy

variable {payload : Payload} {s : Snapshot} {p q : Placement} {parent : String}

theorem of_mem_placements (placed : p ∈ (build s).placements) :
    p.tool ∈ s.tools ∧ p.parents = toolParents (activeIds s) s.edges p.tool ∧ p.parents ≠ [] := by
  obtain ⟨member, inside⟩ := List.mem_filter.mp placed
  obtain ⟨t, ht, rfl⟩ := List.mem_map.mp member
  exact ⟨ht, rfl, by simpa using inside⟩

theorem mem_activeIds_of_mem_parents (placed : p ∈ (build s).placements)
    (inside : parent ∈ p.parents) : parent ∈ activeIds s := by
  rw [(of_mem_placements placed).2.1] at inside
  exact mem_activeIds_of_toolParents inside

theorem mem_activeIds_of_mem_parentsOf {toolId : String}
    (inside : parent ∈ (build s).parentsOf toolId) : parent ∈ activeIds s := by
  unfold parentsOf at inside
  split at inside
  · rename_i p found
    exact mem_activeIds_of_mem_parents (List.mem_of_find?_eq_some found) inside
  · simp at inside

theorem nodup_toolIds (accepted : Snapshot.ofPayload payload = .ok s) :
    (s.tools.map Tool.id).Nodup :=
  (List.nodup_append.mp (Snapshot.nodup_ids accepted)).1

theorem nodup_map_toolId_of_nodup (tools : (s.tools.map Tool.id).Nodup) :
    ((build s).placements.map (fun p => p.tool.id)).Nodup := by
  have ids : ((placeTools (activeIds s) s.edges s.tools).map (fun p => p.tool.id)) =
      s.tools.map Tool.id := List.map_map
  rw [← ids] at tools
  exact tools.sublist (List.filter_sublist.map _)

theorem nodup_map_toolId (accepted : Snapshot.ofPayload payload = .ok s) :
    ((build s).placements.map (fun p => p.tool.id)).Nodup :=
  nodup_map_toolId_of_nodup (nodup_toolIds accepted)

theorem eq_of_toolId_eq (accepted : Snapshot.ofPayload payload = .ok s)
    (first : p ∈ (build s).placements) (second : q ∈ (build s).placements)
    (same : p.tool.id = q.tool.id) : p = q :=
  List.inj_on_of_nodup_map (nodup_map_toolId accepted) first second same

theorem toolId_not_mem_activeIds (accepted : Snapshot.ofPayload payload = .ok s)
    (placed : p ∈ (build s).placements) : p.tool.id ∉ activeIds s := by
  intro active
  obtain ⟨c, hc, same⟩ := List.mem_map.mp active
  have apart := (List.nodup_append.mp (Snapshot.nodup_ids accepted)).2.2
  exact apart _ (List.mem_map_of_mem (of_mem_placements placed).1) _
    (List.mem_map_of_mem (List.mem_filter.mp hc).1) same.symm

end CapabilityAtlas.Hierarchy

/-!
The capabilities of a tool, as two passes over the tools and the edges collect them, and as they are
read off a hierarchy: those that the tool declares and those that edges give, each once. A tool
without any is an orphan, and all others have a place.
-/

namespace CapabilityAtlas.Hierarchy

variable {payload : Payload} {s : Snapshot} {ids : List String}

section Table

variable {tools : List Tool}

private def tableOf (tools : List Tool) (parents : Tool → List String) : Keyed (List String) :=
  tools.map (fun t => (t.id, parents t))

private theorem keys_tableOf (parents : Tool → List String) :
    (tableOf tools parents).keys = tools.map Tool.id :=
  List.map_map

private theorem tableOf_congr {parents others : Tool → List String}
    (same : ∀ t ∈ tools, parents t = others t) : tableOf tools parents = tableOf tools others :=
  List.map_congr_left fun t member => congrArg (t.id, ·) (same t member)

private theorem attaches_iff {t : Tool} {e : Edge} :
    attaches ids t.id e ↔ isMembership ids e ∧ e.target = t.id := by
  change (isMembership ids e && decide (e.target = t.id)) = true ↔ _
  rw [Bool.and_eq_true, decide_eq_true_eq]

variable (nodup : (tools.map Tool.id).Nodup)

include nodup

private theorem get?_tableOf (parents : Tool → List String) {t : Tool} (member : t ∈ tools) :
    (tableOf tools parents).get? t.id = some (parents t) := by
  refine Keyed.get?_of_mem ?_ (List.mem_map_of_mem member)
  rw [keys_tableOf]
  exact nodup

private theorem put_tableOf (parents : Tool → List String) {t : Tool} (member : t ∈ tools)
    (value : List String) :
    (tableOf tools parents).put t.id value =
      tableOf tools (fun u => if u.id = t.id then value else parents u) := by
  have keys : (tableOf tools parents).keys = tools.map Tool.id := keys_tableOf parents
  rw [Keyed.put_eq_map (keys ▸ nodup) (keys ▸ List.mem_map_of_mem member), tableOf, tableOf,
    List.map_map]
  refine List.map_congr_left fun u _ => ?_
  by_cases same : u.id = t.id
  · simp [same]
  · simp [same]

private theorem enterTools_eq :
    tools.foldl (enterTool ids) [] =
      tools.map (fun t => (t.id, firstOccurrences (t.parents.filter ids.contains))) := by
  have pairs : tools.foldl (enterTool ids) [] = Keyed.ofPairs
      (tools.map (fun t => (t.id, firstOccurrences (t.parents.filter ids.contains)))) := by
    rw [Keyed.ofPairs, List.foldl_map]
    rfl
  rw [pairs]
  refine Keyed.ofPairs_of_nodup ?_
  rw [List.map_map]
  exact nodup

private theorem attachEdge_tableOf (parents : Tool → List String) (e : Edge) :
    attachEdge ids (tableOf tools parents) e = tableOf tools (fun t =>
      if attaches ids t.id e then addOnce (parents t) e.source else parents t) := by
  unfold attachEdge
  by_cases known : e.target ∈ tools.map Tool.id
  · obtain ⟨t, member, target⟩ := List.mem_map.mp known
    have found := get?_tableOf nodup parents member
    rw [← target, found]
    by_cases membership : isMembership ids e
    · simp only [if_pos membership]
      rw [put_tableOf nodup parents member]
      refine tableOf_congr fun u hu => ?_
      by_cases same : u.id = t.id
      · obtain rfl := List.inj_on_of_nodup_map nodup hu member same
        rw [if_pos rfl, if_pos (attaches_iff.mpr ⟨membership, target.symm⟩)]
      · have other : ¬ attaches ids u.id e := fun h =>
          same ((attaches_iff.mp h).2.symm.trans target.symm)
        rw [if_neg same, if_neg other]
    · simp only [if_neg membership]
      refine tableOf_congr fun u _ => ?_
      rw [if_neg fun h => membership (attaches_iff.mp h).1]
  · have missing : (tableOf tools parents).get? e.target = none := by
      rw [← Option.not_isSome_iff_eq_none, Option.isSome_iff_exists, ← Keyed.mem_keys_iff,
        keys_tableOf]
      exact known
    rw [missing]
    refine tableOf_congr fun u hu => ?_
    have other : ¬ attaches ids u.id e := by
      intro h
      rw [(attaches_iff.mp h).2] at known
      exact known (List.mem_map_of_mem hu)
    rw [if_neg other]

private theorem attachEdges_tableOf (edges : List Edge) (parents : Tool → List String) :
    edges.foldl (attachEdge ids) (tableOf tools parents) = tableOf tools (fun t =>
      ((edges.filter (attaches ids t.id)).map Edge.source).foldl addOnce (parents t)) := by
  induction edges generalizing parents with
  | nil => rfl
  | cons e rest ih =>
    rw [List.foldl_cons, attachEdge_tableOf nodup, ih]
    refine tableOf_congr fun t _ => ?_
    by_cases attached : attaches ids t.id e
    · simp [attached]
    · simp [attached]

/-- The two passes give every tool its parents. -/
theorem membershipTable_eq (edges : List Edge) :
    membershipTable ids edges tools = tools.map (fun t => (t.id, toolParents ids edges t)) := by
  rw [membershipTable, enterTools_eq nodup]
  refine (attachEdges_tableOf nodup edges _).trans ?_
  refine List.map_congr_left fun t _ => ?_
  rw [toolParents, firstOccurrences, List.foldl_append]
  rfl

end Table

theorem filter_eq_singleton {α : Type} {key : α → String} {xs : List α}
    (nodup : (xs.map key).Nodup) {x : α} (member : x ∈ xs) :
    xs.filter (fun y => key y = key x) = [x] := by
  induction xs with
  | nil => simp at member
  | cons y rest ih =>
    obtain ⟨fresh, later⟩ := List.nodup_cons.mp (List.map_cons ▸ nodup)
    rcases List.mem_cons.mp member with rfl | member
    · have gone : rest.filter (fun y => key y = key x) = [] := by
        rw [List.filter_eq_nil_iff]
        intro y hy same
        exact fresh (of_decide_eq_true same ▸ List.mem_map_of_mem hy)
      rw [List.filter_cons, if_pos (decide_eq_true rfl), gone]
    · have other : ¬ key y = key x := by
        intro same
        exact fresh (same ▸ List.mem_map_of_mem member)
      rw [List.filter_cons_of_neg (by simpa using other), ih later member]

theorem find?_eq_some_of_nodup {α : Type} {key : α → String} {xs : List α}
    (nodup : (xs.map key).Nodup) {x : α} (member : x ∈ xs) :
    xs.find? (fun y => key y = key x) = some x := by
  rw [← List.head?_filter, filter_eq_singleton nodup member]
  rfl

theorem find?_eq_of_perm {α : Type} {key : α → String} {xs ys : List α} (perm : xs.Perm ys)
    (nodup : (xs.map key).Nodup) (k : String) :
    xs.find? (fun x => key x = k) = ys.find? (fun x => key x = k) := by
  have nodup' : (ys.map key).Nodup := (perm.map key).nodup_iff.mp nodup
  by_cases known : k ∈ xs.map key
  · obtain ⟨x, member, rfl⟩ := List.mem_map.mp known
    rw [find?_eq_some_of_nodup nodup member,
      find?_eq_some_of_nodup nodup' (perm.mem_iff.mp member)]
  · have unknown : k ∉ ys.map key := fun h => known ((perm.map key).mem_iff.mpr h)
    have missed : ∀ zs : List α, k ∉ zs.map key → zs.find? (fun x => key x = k) = none := by
      intro zs absent
      rw [List.find?_eq_none]
      intro x member same
      exact absent (of_decide_eq_true same ▸ List.mem_map_of_mem member)
    rw [missed xs known, missed ys unknown]

theorem mem_placements {t : Tool} (member : t ∈ s.tools)
    (placed : toolParents (activeIds s) s.edges t ≠ []) :
    { tool := t, parents := toolParents (activeIds s) s.edges t } ∈ (build s).placements := by
  refine List.mem_filter.mpr ⟨List.mem_map_of_mem member, ?_⟩
  simpa using placed

theorem parentsOf_eq (accepted : Snapshot.ofPayload payload = .ok s) {t : Tool}
    (member : t ∈ s.tools) :
    (build s).parentsOf t.id = toolParents (activeIds s) s.edges t := by
  by_cases placed : toolParents (activeIds s) s.edges t = []
  · have unplaced : (build s).placements.find? (fun p => p.tool.id = t.id) = none := by
      rw [List.find?_eq_none]
      intro p hp same
      obtain ⟨tool, parents, nonempty⟩ := of_mem_placements hp
      have equal := List.inj_on_of_nodup_map (nodup_toolIds accepted) tool member
        (of_decide_eq_true same)
      rw [parents, equal] at nonempty
      exact nonempty placed
    rw [parentsOf, unplaced, placed]
  · have found := find?_eq_some_of_nodup (nodup_map_toolId accepted) (mem_placements member placed)
    rw [parentsOf, found]

end CapabilityAtlas.Hierarchy
