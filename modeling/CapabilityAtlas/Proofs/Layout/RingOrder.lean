import CapabilityAtlas.Proofs.Hierarchy.Preorder
import CapabilityAtlas.Proofs.Layout.Bundle
import CapabilityAtlas.Proofs.Layout.Rearrangement

set_option autoImplicit false
set_option relaxedAutoImplicit false

/-!
The order around the rings. Sorting siblings leaves the trees as they are linked, so that the inner
ring shows them in preorder: whatever lies under a capability follows it at once. On the outer ring
the tools of a server stand together.
-/

namespace CapabilityAtlas.Layout

open CapabilityAtlas.Geometry CapabilityAtlas.Hierarchy

section Trees

private theorem entry_arrange (t : Tree) : (arrange t).entry = t.entry := by
  cases t
  rfl

private theorem children_arrange (t : Tree) :
    (arrange t).children = sortTrees (arrangeAll t.children) := by
  cases t
  rfl

private theorem perm_map_entry_arrangeAll (ts : List Tree) :
    ((sortTrees (arrangeAll ts)).map Tree.entry).Perm (ts.map Tree.entry) := by
  refine ((perm_sortTrees _).map Tree.entry).trans ?_
  rw [arrangeAll_eq_map, List.map_map]
  exact List.Perm.of_eq (List.map_congr_left fun t _ => entry_arrange t)

private theorem pairwise_sortTrees (ts : List Tree) :
    (sortTrees ts).Pairwise (fun t u => Order.pairLe (t.name, t.id) (u.name, u.id)) :=
  Order.pairwise_sortByTexts (fun t : Tree => (t.name, t.id)) ts

mutual

theorem exists_arrange_of_mem_walk {u : Tree} :
    (t : Tree) → u ∈ (arrange t).walk → ∃ v ∈ t.walk, arrange v = u
  | .node e ts, member => by
    rcases List.mem_cons.mp member with rfl | below
    · exact ⟨.node e ts, List.mem_cons_self, rfl⟩
    · obtain ⟨v, inside, same⟩ := exists_arrange_of_mem_walkAll ts
        ((perm_walkAll (perm_sortTrees _)).mem_iff.mp below)
      exact ⟨v, List.mem_cons_of_mem _ inside, same⟩

private theorem exists_arrange_of_mem_walkAll {u : Tree} :
    (ts : List Tree) → u ∈ Tree.walkAll (arrangeAll ts) → ∃ v ∈ Tree.walkAll ts, arrange v = u
  | t :: ts, member => by
    rcases List.mem_append.mp member with inside | later
    · obtain ⟨v, inside, same⟩ := exists_arrange_of_mem_walk t inside
      exact ⟨v, List.mem_append_left _ inside, same⟩
    · obtain ⟨v, inside, same⟩ := exists_arrange_of_mem_walkAll ts later
      exact ⟨v, List.mem_append_right _ inside, same⟩

end

variable {parentOf : Entry → Option String} {entries : List Entry}
  {tree : String → Option String} {u : Tree} {parent : Option String}

/-- The trees around the inner ring: the grown ones with sorted siblings. -/
def ringTrees (parentOf : Entry → Option String) (entries : List Entry) : List Tree :=
  sortTrees (arrangeAll (grow parentOf entries none))

private theorem exists_arrange_of_mem_ringTrees
    (member : u ∈ Tree.walkAll (ringTrees parentOf entries)) :
    ∃ v ∈ Tree.walkAll (grow parentOf entries none), arrange v = u :=
  exists_arrange_of_mem_walkAll _ ((perm_walkAll (perm_sortTrees _)).mem_iff.mp member)

section Rooted

variable (rooted : Rooted parentOf entries tree)

include rooted

private theorem perm_map_id_ringTrees :
    ((Tree.walkAll (ringTrees parentOf entries)).map Tree.id).Perm (entries.map Entry.id) := by
  have walked : ((Tree.walkAll (ringTrees parentOf entries)).map Tree.entry).Perm
      ((Tree.walkAll (grow parentOf entries none)).map Tree.entry) :=
    ((perm_walkAll (perm_sortTrees _)).map _).trans (perm_walkAll_arrangeAll _)
  have ids := walked.map Entry.id
  rw [List.map_map, List.map_map] at ids
  exact ids.trans rooted.perm_walk_grow

private theorem entry_mem_of_mem_ringTrees
    (member : u ∈ Tree.walkAll (ringTrees parentOf entries)) :
    u.entry ∈ entries := by
  obtain ⟨v, inside, rfl⟩ := exists_arrange_of_mem_ringTrees member
  rw [entry_arrange]
  exact (rooted.reaches.grow_spec v inside).1

private theorem mem_siblings_iff {nodes : List Tree}
    (within : nodes ⊆ Tree.walkAll (ringTrees parentOf entries))
    (perm : (nodes.map Tree.entry).Perm (entries.filter (fun e => parentOf e = parent)))
    (member : u ∈ Tree.walkAll (ringTrees parentOf entries)) :
    u ∈ nodes ↔ tree u.id = parent := by
  have entry := entry_mem_of_mem_ringTrees rooted member
  have own : u.entry ∈ nodes.map Tree.entry ↔ tree u.id = parent := by
    rw [perm.mem_iff, List.mem_filter, decide_eq_true_eq, rooted.follows _ entry]
    exact and_iff_right entry
  rw [← own, List.mem_map]
  constructor
  · exact fun listed => ⟨u, listed, rfl⟩
  · rintro ⟨v, listed, same⟩
    have nodup := (perm_map_id_ringTrees rooted).nodup_iff.mpr rooted.nodup
    rwa [← List.inj_on_of_nodup_map nodup (within listed) member (congrArg Entry.id same)]

/-- Sorting siblings leaves every node where its link belongs. -/
theorem inOrder_ringTrees : InOrder tree (ringTrees parentOf entries) := by
  have ids := perm_map_id_ringTrees rooted
  constructor
  case nodup => exact ids.nodup_iff.mpr rooted.nodup
  case closed =>
    intro u member p linked
    obtain ⟨f, hf, rfl⟩ := rooted.closed _ (entry_mem_of_mem_ringTrees rooted member) p linked
    obtain ⟨t, ht, same⟩ := List.mem_map.mp (ids.mem_iff.mpr (List.mem_map_of_mem hf))
    exact ⟨t, ht, same⟩
  case top =>
    refine fun u member => mem_siblings_iff rooted (Tree.sublist_walkAll _).subset ?_ member
    rw [← rooted.grow_entries]
    exact perm_map_entry_arrangeAll _
  case below =>
    intro t inside u member
    refine mem_siblings_iff rooted (fun c child => Tree.child_mem_walkAll _ inside child) ?_ member
    obtain ⟨v, hv, rfl⟩ := exists_arrange_of_mem_ringTrees inside
    have same : (arrange v).id = v.id := congrArg Entry.id (entry_arrange v)
    rw [children_arrange, same, ← (rooted.reaches.grow_spec v hv).2.1]
    exact perm_map_entry_arrangeAll _
  case sorted => exact pairwise_sortTrees _
  case sortedBelow =>
    intro t inside
    obtain ⟨v, -, rfl⟩ := exists_arrange_of_mem_ringTrees inside
    rw [children_arrange]
    exact pairwise_sortTrees _

end Rooted

end Trees

section Servers

/-- Tools that stand together: those of one server, by name and id. -/
structure IsServerGroup (server : String) (tools : List Tool) : Prop where
  nonempty : tools ≠ []
  server : ∀ t ∈ tools, t.server = server
  sorted : tools.Pairwise (fun t u => Order.pairLe (t.name, t.id) (u.name, u.id))

private def ringServers (tools : List Tool) : List String :=
  Order.sortTexts (firstOccurrences (tools.map Tool.server))

private theorem pairwise_ringServers (tools : List Tool) :
    (ringServers tools).Pairwise (· < ·) := by
  have distinct : (ringServers tools).Nodup :=
    (Order.perm_sortTexts _).nodup_iff.mpr (nodup_firstOccurrences _)
  refine ((Order.pairwise_sortTexts _).and distinct).imp fun {a b} both => ?_
  by_contra above
  exact both.2 (String.le_antisymm both.1 (String.not_lt.mp above))

private theorem exists_serverGroups (tools : List Tool) : ∃ groups : List (String × List Tool),
    toolGroups tools = groups.map Prod.snd ∧ (groups.map Prod.fst).Pairwise (· < ·) ∧
      ∀ group ∈ groups, IsServerGroup group.1 group.2 := by
  refine ⟨(ringServers tools).map (fun server => (server,
    Order.sortByTexts (fun t => (t.name, t.id)) (tools.filter (fun t => t.server = server)))),
    ?_, ?_, ?_⟩
  · rw [List.map_map]
    rfl
  · rw [List.map_map]
    exact (List.map_id _).symm ▸ pairwise_ringServers tools
  · intro group member
    obtain ⟨server, listed, rfl⟩ := List.mem_map.mp member
    have perm : (Order.sortByTexts (fun t => (t.name, t.id))
        (tools.filter (fun t => t.server = server))).Perm
          (tools.filter (fun t => t.server = server)) := Order.perm_sortByTexts _ _
    refine ⟨?_, fun t inside => ?_, Order.pairwise_sortByTexts _ _⟩
    · have named : server ∈ tools.map Tool.server :=
        mem_firstOccurrences.mp (Order.mem_sortTexts.mp listed)
      obtain ⟨t, ht, rfl⟩ := List.mem_map.mp named
      have inside := perm.mem_iff.mpr (List.mem_filter.mpr ⟨ht, decide_eq_true rfl⟩)
      exact List.ne_nil_of_mem inside
    · exact of_decide_eq_true (List.mem_filter.mp (perm.mem_iff.mp inside)).2

end Servers

section Rings

variable {α : Type} [NatCast α] [LT α] [LE α] [DecidableLT α] [DecidableLE α] [Add α] [Sub α]
  [Mul α] [Div α] [Circular α] [OfBinary α]

private theorem map_arc_ring (center : Point α) (radius : α) (spacing : Spacing α)
    (groups : List (List RingItem)) :
    (ring center radius spacing groups).map RingNode.arc =
      arcs fullTurn (sizesOf groups) spacing := by
  have enough : (arcs fullTurn (sizesOf groups) spacing).length ≤ groups.flatten.length :=
    Nat.le_of_eq (length_arcs_sizesOf fullTurn groups spacing)
  calc (ring center radius spacing groups).map RingNode.arc
      = List.zipWith (fun _ arc => arc) groups.flatten
          (arcs fullTurn (sizesOf groups) spacing) := List.map_zipWith
    _ = (groups.flatten.zip (arcs fullTurn (sizesOf groups) spacing)).map Prod.snd :=
        (List.map_zipWith (f := Prod.snd) (g := Prod.mk)).symm
    _ = arcs fullTurn (sizesOf groups) spacing := List.map_snd_zip enough

/-- Whether nodes are the capabilities of a snapshot in preorder: each used one once, followed at
once by those that climb to it, and siblings by name and id. -/
structure ShowsCapabilities (s : Snapshot) (c : RadialConfig α) (nodes : List (RingNode α)) :
    Prop where
  items : (nodes.map RingNode.item).Perm
    ((build s).entries.map (fun e => .capability e.capability e.level))
  ids : (nodes.map RingNode.id).Perm (activeIds s)
  nodup : (nodes.map RingNode.id).Nodup
  below : ∀ before id rest, nodes.map RingNode.id = before ++ id :: rest →
    ∃ below after, rest = below ++ after ∧
      ∀ other, other ∈ below ↔ ∃ n, ascend (build s).parents.get? (n + 1) other = some id
  siblings : nodes.Pairwise (fun m n =>
    (build s).parents.get? m.id = (build s).parents.get? n.id →
      Order.pairLe (m.item.name, m.id) (n.item.name, n.id))
  arcs : nodes.map RingNode.arc = arcs fullTurn [(nodes.length : Int)]
    { padding := c.style.capabilityPadding, gap := ((0 : Nat) : α) }

/-- Whether nodes are the tools of a snapshot: each placed one once, and each orphan once if they
are wanted. The tools of a server stand together, by name and id, and the servers ascend. -/
structure ShowsTools (s : Snapshot) (c : RadialConfig α) (nodes : List (RingNode α)) :
    Prop where
  items : (nodes.map RingNode.item).Perm (((build s).placements.map Placement.tool ++
    if c.includeOrphans then (build s).orphans else []).map .tool)
  nodup : (nodes.map RingNode.id).Nodup
  orphans : ∀ t ∈ (build s).orphans, t.id ∈ nodes.map RingNode.id ↔ c.includeOrphans
  groups : ∃ groups : List (String × List Tool),
    nodes.map RingNode.item = (groups.flatMap Prod.snd).map .tool ∧
    (groups.map Prod.fst).Pairwise (· < ·) ∧
    (∀ group ∈ groups, IsServerGroup group.1 group.2) ∧
    nodes.map RingNode.arc = arcs fullTurn (groups.map (fun group => (group.2.length : Int)))
      { padding := c.style.toolPadding, gap := c.style.serverGap }

variable {payload : Payload} {s : Snapshot} (c : RadialConfig α)

private theorem map_item_capabilities_place :
    (place (build s) c).capabilities.map RingNode.item =
      (Tree.walkAll (ringTrees parentIdOf (build s).entries)).map
        (fun t => .capability t.entry.capability t.entry.level) := by
  have items : (place (build s) c).capabilities.map RingNode.item =
      [(capabilityOrder (build s)).map
        (fun t => RingItem.capability t.entry.capability t.entry.level)].flatten :=
    map_item_ring _ _ _ _
  rw [items, List.flatten_singleton]
  rfl

private theorem map_id_capabilities_place :
    (place (build s) c).capabilities.map RingNode.id =
      (Tree.walkAll (ringTrees parentIdOf (build s).entries)).map Tree.id := by
  have ids := congrArg (List.map RingItem.id) (map_item_capabilities_place (s := s) c)
  rw [List.map_map, List.map_map] at ids
  exact ids

theorem showsCapabilities_place (nodup : (activeIds s).Nodup) :
    ShowsCapabilities s c (place (build s) c).capabilities := by
  have rooted := rooted_build nodup
  have order := inOrder_ringTrees rooted
  have items := map_item_capabilities_place (s := s) c
  have ids := map_id_capabilities_place (s := s) c
  have perm : ((place (build s) c).capabilities.map RingNode.id).Perm (activeIds s) := by
    rw [ids, ← map_id_entries]
    exact perm_map_id_ringTrees rooted
  constructor
  case items =>
    have entries := ((perm_capabilityOrder (build s)).trans (perm_map_entry_walk nodup)).map
      (fun e => RingItem.capability e.capability e.level)
    rw [List.map_map] at entries
    exact items ▸ entries
  case ids => exact perm
  case nodup => exact perm.nodup_iff.mpr nodup
  case below =>
    intro before id rest split
    obtain ⟨below, after, rfl, climbs⟩ := order.exists_below (ids ▸ split)
    refine ⟨below, after, rfl, fun other => ?_⟩
    by_cases listed : other ∈ activeIds s
    · obtain ⟨t, ht, rfl⟩ := List.mem_map.mp (ids ▸ perm.mem_iff.mpr listed)
      exact climbs t ht
    · refine iff_of_false (fun inside => listed (perm.mem_iff.mp ?_)) ?_
      · rw [split]
        simp [inside]
      · rintro ⟨n, reach⟩
        obtain ⟨p, linked, -⟩ := Option.bind_eq_some_iff.mp reach
        have forest := isForestOf_parents nodup
        exact listed (mem_of_containerOf (forest.up_eq_some linked)).1
  case siblings =>
    have sorted : ((place (build s) c).capabilities.map RingNode.item).Pairwise (fun m n =>
        (build s).parents.get? m.id = (build s).parents.get? n.id →
          Order.pairLe (m.name, m.id) (n.name, n.id)) := by
      rw [items, List.pairwise_map]
      exact order.pairwise_siblings
    exact List.pairwise_map.mp sorted
  case arcs =>
    have length := congrArg List.length items
    rw [List.length_map, List.length_map] at length
    have size : sizesOf [(capabilityOrder (build s)).map
        (fun t => RingItem.capability t.entry.capability t.entry.level)] =
          [((place (build s) c).capabilities.length : Int)] := by
      rw [length, sizesOf, List.map_singleton, List.length_map]
      rfl
    exact (map_arc_ring _ _ _ _).trans (congrArg (arcs fullTurn · _) size)

theorem showsTools_place (distinct : (s.tools.map Tool.id).Nodup) :
    ShowsTools s c (place (build s) c).tools := by
  have items : (place (build s) c).tools.map RingNode.item =
      ((toolGroups (ringTools (build s) c.includeOrphans)).map
        (fun tools => tools.map .tool)).flatten := map_item_ring _ _ _ _
  rw [← List.map_flatten] at items
  have ids := map_id_tools_place (build s) c
  have perm : ((place (build s) c).tools.map RingNode.id).Perm
      ((ringTools (build s) c.includeOrphans).map Tool.id) := by
    rw [ids]
    exact (perm_flatten_toolGroups _).map Tool.id
  constructor
  case items =>
    rw [items]
    exact (perm_flatten_toolGroups _).map RingItem.tool
  case nodup => exact perm.nodup_iff.mpr (nodup_map_id_ringTools distinct c.includeOrphans)
  case orphans =>
    intro t orphan
    rw [perm.mem_iff]
    cases wanted : c.includeOrphans with
    | true =>
      exact iff_of_true (List.mem_map_of_mem (List.mem_append_right _ orphan)) rfl
    | false =>
      refine iff_of_false (fun placed => ?_) Bool.false_ne_true
      have all := nodup_map_id_ringTools distinct true
      rw [ringTools, if_pos rfl, List.map_append] at all
      rw [ringTools, if_neg Bool.false_ne_true, List.append_nil] at placed
      exact (List.nodup_append.mp all).2.2 _ placed _ (List.mem_map_of_mem orphan) rfl
  case groups =>
    obtain ⟨groups, same, servers, each⟩ :=
      exists_serverGroups (ringTools (build s) c.includeOrphans)
    refine ⟨groups, ?_, servers, each, ?_⟩
    · rw [items, same, List.flatMap_def]
    · have sizes : sizesOf ((toolGroups (ringTools (build s) c.includeOrphans)).map
          (fun tools => tools.map RingItem.tool)) =
            groups.map (fun group => (group.2.length : Int)) := by
        rw [same, sizesOf, List.map_map, List.map_map]
        exact List.map_congr_left fun group _ => congrArg Int.ofNat (List.length_map _)
      exact (map_arc_ring _ _ _ _).trans (congrArg (arcs fullTurn · _) sizes)

/-- Whatever the configuration, an accepted snapshot has a layout, with its used capabilities in
preorder on the inner ring and its tools by server on the outer one. -/
theorem radialLayout_shows_rings (accepted : Snapshot.ofPayload payload = .ok s) :
    ∃ layout, radialLayout (build s) c = .ok layout ∧
      ShowsCapabilities s c layout.rings.capabilities ∧ ShowsTools s c layout.rings.tools := by
  have nodup := nodup_activeIds accepted
  have distinct : (s.tools.map Tool.id).Nodup :=
    (List.nodup_append.mp (Snapshot.nodup_ids accepted)).1
  obtain ⟨paths, run, -⟩ := exists_bundle_eq_ok nodup c (clampTension c.style.tension)
  refine ⟨{ rings := place (build s) c, paths := paths, tension := clampTension c.style.tension },
    ?_, showsCapabilities_place c nodup, showsTools_place c distinct⟩
  rw [radialLayout, layoutAt, run]
  rfl

end Rings

/-- On the circle the first capability loses its container, and what it contains follows it. -/
theorem radialLayout_shows_rings_of_circle :
    ∃ layout before below after, Snapshot.ofPayload circlePayload = .ok circleSnapshot ∧
      radialLayout (build circleSnapshot) (canvasConfig (800 : Float) 600 none) = .ok layout ∧
      layout.rings.capabilities.map RingNode.id = before ++ "a" :: (below ++ after) ∧
      "b" ∈ below ∧ "c" ∈ below := by
  obtain ⟨layout, made, shows, -⟩ :=
    radialLayout_shows_rings (canvasConfig (800 : Float) 600 none) accepted_circlePayload
  have first : "a" ∈ layout.rings.capabilities.map RingNode.id :=
    shows.ids.mem_iff.mpr (by decide)
  obtain ⟨before, rest, split⟩ := List.append_of_mem first
  obtain ⟨below, after, rfl, climbs⟩ := shows.below _ _ _ split
  exact ⟨layout, before, below, after, accepted_circlePayload, made, split,
    (climbs "b").mpr ⟨0, by decide +kernel⟩, (climbs "c").mpr ⟨1, by decide +kernel⟩⟩

end CapabilityAtlas.Layout
