import CapabilityAtlas.Hierarchy.Build
import CapabilityAtlas.Proofs.Hierarchy.Cut
import CapabilityAtlas.Proofs.Hierarchy.Growth
import CapabilityAtlas.Proofs.Keyed
import CapabilityAtlas.Proofs.Record.DistinctIds

set_option autoImplicit false
set_option relaxedAutoImplicit false

/-!
The table of first parents: it gives an id the source of the first containing edge that targets it.
-/

namespace CapabilityAtlas.Hierarchy

/-- The ids of the capabilities that have been used, in input order. -/
def activeIds (s : Snapshot) : List String := (s.capabilities.filter isActive).map Capability.id

/-- The source of the first edge by which a used capability contains the given other one. -/
def containerOf (s : Snapshot) (c : String) : Option String :=
  (s.edges.find? (fun e => e.relation = .contains ∧ e.target = c ∧ c ∈ activeIds s ∧
    e.source ∈ activeIds s ∧ e.source ≠ c)).map Edge.source

private theorem get?_linkOnce (links : Keyed String) (e : Edge) (c : String) :
    (linkOnce links e).get? c =
      (links.get? c).or (if e.target = c then some e.source else none) := by
  unfold linkOnce Keyed.has
  by_cases same : e.target = c
  · subst same
    cases known : links.get? e.target with
    | none => simp [Keyed.get?_put_self]
    | some p => simp [known]
  · have other : c ≠ e.target := fun he => same he.symm
    rw [if_neg same, Option.or_none]
    split
    · rfl
    · exact Keyed.get?_put_of_ne links e.source other

private theorem get?_foldl_linkOnce (edges : List Edge) (links : Keyed String) (c : String) :
    (edges.foldl linkOnce links).get? c =
      (links.get? c).or ((edges.find? (fun e => e.target = c)).map Edge.source) := by
  induction edges generalizing links with
  | nil => simp
  | cons e rest ih =>
    rw [List.foldl_cons, ih, get?_linkOnce, Option.or_assoc]
    by_cases same : e.target = c
    · simp [same]
    · simp [same]

private theorem get?_firstParents (edges : List Edge) (ids : List String) (c : String) :
    (firstParents edges ids).get? c =
      (edges.find? (fun e => nests ids e && e.target = c)).map Edge.source := by
  rw [firstParents, get?_foldl_linkOnce, List.find?_filter]
  simp [Keyed.get?]

theorem mem_of_get?_firstParents {edges : List Edge} {ids : List String} {c p : String}
    (h : (firstParents edges ids).get? c = some p) : c ∈ ids ∧ p ∈ ids := by
  rw [get?_firstParents] at h
  obtain ⟨e, found, rfl⟩ := Option.map_eq_some_iff.mp h
  have holds := List.find?_some found
  simp only [nests, Bool.and_eq_true, decide_eq_true_eq, List.contains_iff_mem] at holds
  obtain ⟨⟨⟨⟨-, source⟩, target⟩, -⟩, rfl⟩ := holds
  exact ⟨target, source⟩

theorem get?_firstParents_activeIds (s : Snapshot) (c : String) :
    (firstParents s.edges (activeIds s)).get? c = containerOf s c := by
  rw [get?_firstParents, containerOf]
  congr 2
  funext e
  rw [Bool.eq_iff_iff]
  simp only [nests, Bool.and_eq_true, decide_eq_true_eq, List.contains_iff_mem, bne_iff_ne]
  constructor
  · rintro ⟨⟨⟨⟨contains, source⟩, target⟩, distinct⟩, rfl⟩
    exact ⟨contains, rfl, target, source, distinct⟩
  · rintro ⟨contains, rfl, target, source, distinct⟩
    exact ⟨⟨⟨⟨contains, source⟩, target⟩, distinct⟩, rfl⟩

theorem mem_of_containerOf {s : Snapshot} {c p : String} (h : containerOf s c = some p) :
    c ∈ activeIds s ∧ p ∈ activeIds s := by
  rw [← get?_firstParents_activeIds] at h
  exact mem_of_get?_firstParents h

/-!
The forest of a hierarchy: which links it keeps, and that its trees follow them. All that is needed
of a snapshot is that its capabilities have distinct ids, which holds for an accepted one.
-/

variable {payload : Payload} {s : Snapshot}

theorem nodup_activeIds (accepted : Snapshot.ofPayload payload = .ok s) :
    (activeIds s).Nodup := by
  have nodup := (List.nodup_append.mp (Snapshot.nodup_ids accepted)).2.1
  exact nodup.sublist (List.filter_sublist.map Capability.id)

/-- The links that a hierarchy keeps are those of a forest. -/
theorem isForestOf_parents (nodup : (activeIds s).Nodup) :
    IsForestOf (containerOf s) (activeIds s) (build s).parents.get? := by
  have links : (firstParents s.edges (activeIds s)).get? = containerOf s :=
    funext (get?_firstParents_activeIds s)
  rw [← links]
  exact isForestOf_forest nodup fun c p linked => (mem_of_get?_firstParents linked).1

theorem nodup_keys_forest {order : List String} {links : Keyed String}
    (nodup : links.keys.Nodup) : (forest order links).keys.Nodup := by
  refine List.foldlRecOn (motive := fun links : Keyed String => links.keys.Nodup) order
    (cutAbove order) nodup fun links nodup id _ => ?_
  unfold cutAbove cut
  split
  · split
    · exact nodup.sublist (List.filter_sublist.map Prod.fst)
    · exact nodup
  · exact nodup

theorem nodup_keys_firstParents (edges : List Edge) (ids : List String) :
    (firstParents edges ids).keys.Nodup := by
  refine List.foldlRecOn (motive := fun links : Keyed String => links.keys.Nodup)
    (edges.filter (nests ids)) linkOnce List.nodup_nil fun links nodup e _ => ?_
  unfold linkOnce
  split
  · exact nodup
  · exact Keyed.nodup_keys_put nodup e.target e.source

/-- Three capabilities, of which the first two contain each other and the second the third. -/
def circleSnapshot : Snapshot where
  tools := []
  capabilities := ["a", "b", "c"].map (fun id => {
    id := id
    name := id
    usageCount := 1
    successRate := 0
    pagerank := 0
    lastUsed := none
    communityId := none
    description := .null
    fqdn := .null
    codeSnippet := .null
    parentId := none })
  edges := [("a", "b"), ("b", "a"), ("b", "c")].map (fun ends => {
    source := ends.1
    target := ends.2
    relation := .contains
    weight := none
    observedCount := none })

def circlePayload : Payload :=
  .record [
    ("nodes", .list (["a", "b", "c"].map (fun id =>
      .record [("id", .text id), ("type", .text "capability"), ("usage_count", .int 1)]))),
    ("edges", .list ([("a", "b"), ("b", "a"), ("b", "c")].map (fun ends =>
      .record [("source", .text ends.1), ("target", .text ends.2),
        ("edge_type", .text "contains")])))]

theorem accepted_circlePayload : Snapshot.ofPayload circlePayload = .ok circleSnapshot := rfl

/-- A capability keeps the link to its container unless it comes first on a circle of containers;
so no link outside a circle is lost, and each circle loses one link. -/
theorem parents_eq_containers_without_first (accepted : Snapshot.ofPayload payload = .ok s) :
    (build s).parents.keys.Nodup ∧
    (∀ c p, (build s).parents.get? c = some p ↔
      containerOf s c = some p ∧ ¬ FirstOnCircle (containerOf s) (activeIds s) c) ∧
    (∀ c, ¬ OnCircle (containerOf s) c → (build s).parents.get? c = containerOf s c) ∧
    ∀ c, OnCircle (containerOf s) c →
      ∃! d, (∃ n, ascend (containerOf s) n c = some d) ∧ (build s).parents.get? d = none := by
  have forest := isForestOf_parents (nodup_activeIds accepted)
  refine ⟨nodup_keys_forest (nodup_keys_firstParents _ _), ?_, ?_, ?_⟩
  · intro c p
    by_cases first : FirstOnCircle (containerOf s) (activeIds s) c
    · simp [forest.first c first, first]
    · simp [forest.other c first, first]
  · exact fun c off => forest.other c fun first => off first.1
  · intro c circle
    obtain ⟨n, d, reach, first⟩ := forest.exists_first circle
    have above := forest.ascend_up reach
    refine ⟨d, ⟨⟨n, above⟩, forest.first d first⟩, ?_⟩
    rintro e ⟨⟨m, toE⟩, loose⟩
    obtain ⟨p, linked⟩ := (circle.of_ascend toE).exists_up
    have alsoFirst := forest.firstOnCircle_of_loose linked loose
    obtain ⟨k, back⟩ := circle.ascend_back toE
    exact alsoFirst.eq first (ascend_trans back above) (mem_of_containerOf linked).1

theorem parents_eq_containers_without_first_of_circle :
    Snapshot.ofPayload circlePayload = .ok circleSnapshot ∧
    OnCircle (containerOf circleSnapshot) "a" ∧
    ∃! d, (∃ n, ascend (containerOf circleSnapshot) n "a" = some d) ∧
      (build circleSnapshot).parents.get? d = none :=
  have circle : OnCircle (containerOf circleSnapshot) "a" := ⟨1, by decide⟩
  ⟨accepted_circlePayload, circle,
    (parents_eq_containers_without_first accepted_circlePayload).2.2.2 "a" circle⟩

theorem map_id_entries : (build s).entries.map Entry.id = activeIds s := List.map_map

theorem rooted_build (nodup : (activeIds s).Nodup) :
    Rooted (fun e => e.capability.parentId) (build s).entries (build s).parents.get? := by
  have forest := isForestOf_parents nodup
  refine ⟨map_id_entries ▸ nodup, ?_, ?_, forest.grounded⟩
  · intro e he
    obtain ⟨c, -, rfl⟩ := List.mem_map.mp he
    rfl
  · intro e _ p linked
    have member := (mem_of_containerOf (forest.up_eq_some linked)).2
    rw [← map_id_entries] at member
    obtain ⟨f, hf, same⟩ := List.mem_map.mp member
    exact ⟨f, hf, same⟩

theorem map_id_filter_entries (parent : Option String) :
    ((build s).entries.filter (fun e => e.capability.parentId = parent)).map Entry.id =
      (activeIds s).filter (fun id => (build s).parents.get? id = parent) := by
  change ((s.capabilities.filter isActive).map _ |>.filter _).map Entry.id = _
  rw [activeIds, List.filter_map, List.filter_map, List.map_map]
  rfl

/-- The walk over a hierarchy comes to every used capability once and to nothing else. -/
theorem perm_walk_build (nodup : (activeIds s).Nodup) :
    ((build s).walk.map Tree.id).Perm (activeIds s) := by
  rw [← map_id_entries]
  exact (rooted_build nodup).perm_walk_grow

theorem map_id_roots_build (nodup : (activeIds s).Nodup) :
    (build s).roots.map Tree.id =
      (activeIds s).filter (fun id => (build s).parents.get? id = none) := by
  rw [← map_id_filter_entries]
  exact (List.map_map.symm.trans (congrArg _ (rooted_build nodup).grow_entries))

theorem entry_of_mem_walk_build (nodup : (activeIds s).Nodup) {t : Tree}
    (member : t ∈ (build s).walk) :
    ∃ c ∈ s.capabilities.filter isActive,
      t.entry = entryOf (build s).parents (build s).levels (build s).placements c := by
  have inside := ((rooted_build nodup).reaches.grow_spec t member).1
  obtain ⟨c, hc, same⟩ := List.mem_map.mp inside
  exact ⟨c, hc, same.symm⟩

theorem map_id_children_build (nodup : (activeIds s).Nodup) {t : Tree}
    (member : t ∈ (build s).walk) :
    t.children.map Tree.id =
      (activeIds s).filter (fun id => (build s).parents.get? id = some t.id) := by
  rw [← map_id_filter_entries]
  exact List.map_map.symm.trans
    (congrArg _ ((rooted_build nodup).reaches.grow_spec t member).2.1)

end CapabilityAtlas.Hierarchy
