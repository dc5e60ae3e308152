import CapabilityAtlas.Layout.Radial
import CapabilityAtlas.Proofs.Grouping
import CapabilityAtlas.Proofs.Hierarchy.Distribution
import CapabilityAtlas.Proofs.Hierarchy.Growth
import CapabilityAtlas.Proofs.Keyed
import CapabilityAtlas.Proofs.Order

set_option autoImplicit false
set_option relaxedAutoImplicit false

/-!
What lies on the rings. There is an arc for every item, so a ring holds the items of its groups in
their order; and neither sorting siblings nor grouping by server loses an item.
-/

namespace CapabilityAtlas.Layout

open CapabilityAtlas.Geometry CapabilityAtlas.Hierarchy

def sizesOf {β : Type} (groups : List (List β)) : List Int :=
  groups.map (fun items => Int.ofNat items.length)

private theorem entityCount_sizesOf {β : Type} (groups : List (List β)) :
    entityCount (sizesOf groups) = groups.flatten.length := by
  induction groups with
  | nil => rfl
  | cons items rest ih =>
    have rest' : entityCount (sizesOf (items :: rest)) =
        items.length + entityCount (sizesOf rest) := rfl
    rw [rest', ih, List.flatten_cons, List.length_append]
    omega

private theorem length_slots_sizesOf {β : Type} (groups : List (List β)) :
    (slots (sizesOf groups)).length = groups.flatten.length := by
  have numbered : ∀ start, (((sizesOf groups).zipIdx start).flatMap (fun group =>
      List.replicate group.1.toNat group.2)).length = groups.flatten.length := by
    induction groups with
    | nil => exact fun _ => rfl
    | cons items rest ih =>
      intro start
      have sizes : sizesOf (items :: rest) = Int.ofNat items.length :: sizesOf rest := rfl
      rw [sizes, List.zipIdx_cons, List.flatMap_cons, List.length_append, List.length_replicate,
        ih, List.flatten_cons, List.length_append]
      rfl
  rw [slots, List.length_map, List.length_zipIdx, numbered]

section Rings

variable {α : Type} [NatCast α] [LE α] [DecidableLE α] [Add α] [Sub α] [Mul α] [Div α]

theorem length_arcs_sizesOf {β : Type} (turn : α) (groups : List (List β)) (spacing : Spacing α) :
    (arcs turn (sizesOf groups) spacing).length = groups.flatten.length := by
  have ofWidth : ∀ (spacing : Spacing α) (width : α),
      (arcsOfWidth (sizesOf groups) spacing width).length = groups.flatten.length := by
    intro spacing width
    rw [arcsOfWidth, List.length_map, length_slots_sizesOf]
  unfold arcs
  rw [entityCount_sizesOf]
  split
  · rename_i empty
    rw [List.length_nil]
    omega
  · split
    · exact ofWidth _ _
    · exact ofWidth _ _

variable [LT α] [DecidableLT α] [Circular α] [OfBinary α]

theorem map_item_ring (center : Point α) (radius : α) (spacing : Spacing α)
    (groups : List (List RingItem)) :
    (ring center radius spacing groups).map RingNode.item = groups.flatten := by
  have enough : groups.flatten.length ≤ (arcs fullTurn (sizesOf groups) spacing).length :=
    Nat.le_of_eq (length_arcs_sizesOf fullTurn groups spacing).symm
  calc (ring center radius spacing groups).map RingNode.item
      = List.zipWith (fun item _ => item) groups.flatten
          (arcs fullTurn (sizesOf groups) spacing) := List.map_zipWith
    _ = (groups.flatten.zip (arcs fullTurn (sizesOf groups) spacing)).map Prod.fst :=
        (List.map_zipWith (f := Prod.fst) (g := Prod.mk)).symm
    _ = groups.flatten := List.map_fst_zip enough

end Rings

theorem perm_sortTrees (trees : List Tree) : (sortTrees trees).Perm trees :=
  List.mergeSort_perm trees _

theorem perm_walkAll {ts us : List Tree} (perm : ts.Perm us) :
    (Tree.walkAll ts).Perm (Tree.walkAll us) := by
  rw [Tree.walkAll_eq_flatMap, Tree.walkAll_eq_flatMap]
  exact perm.flatMap_right Tree.walk

mutual

theorem perm_walk_arrange :
    (t : Tree) → ((arrange t).walk.map Tree.entry).Perm (t.walk.map Tree.entry)
  | .node e ts => by
    rw [arrange, Tree.walk, Tree.walk, List.map_cons, List.map_cons]
    exact (((perm_walkAll (perm_sortTrees _)).map Tree.entry).trans
      (perm_walkAll_arrangeAll ts)).cons e

theorem perm_walkAll_arrangeAll : (ts : List Tree) →
    ((Tree.walkAll (arrangeAll ts)).map Tree.entry).Perm ((Tree.walkAll ts).map Tree.entry)
  | [] => List.Perm.refl _
  | t :: ts => by
    rw [arrangeAll, Tree.walkAll, Tree.walkAll, List.map_append, List.map_append]
    exact (perm_walk_arrange t).append (perm_walkAll_arrangeAll ts)

end

theorem perm_capabilityOrder (h : Hierarchy) :
    ((capabilityOrder h).map Tree.entry).Perm (h.walk.map Tree.entry) :=
  ((perm_walkAll (perm_sortTrees _)).map Tree.entry).trans (perm_walkAll_arrangeAll h.roots)

theorem perm_flatten_toolGroups (tools : List Tool) : (toolGroups tools).flatten.Perm tools := by
  have distinct : (Order.sortTexts (firstOccurrences (tools.map Tool.server))).Nodup :=
    (Order.perm_sortTexts _).nodup_iff.mpr (nodup_firstOccurrences _)
  have listed : ∀ t ∈ tools,
      t.server ∈ Order.sortTexts (firstOccurrences (tools.map Tool.server)) := fun t member =>
    Order.mem_sortTexts.mpr (mem_firstOccurrences.mpr (List.mem_map_of_mem member))
  rw [toolGroups, ← List.flatMap_def]
  refine (List.Perm.flatMap_left _ fun server _ => Order.perm_sortByTexts _ _).trans ?_
  exact perm_flatMap_filter Tool.server distinct listed

def ringToolIds (h : Hierarchy) (includeOrphans : Bool) : List String :=
  (toolGroups (ringTools h includeOrphans)).flatten.map Tool.id

theorem mem_ringToolIds_of_placement {h : Hierarchy} {p : Placement} (placed : p ∈ h.placements)
    (includeOrphans : Bool) : p.tool.id ∈ ringToolIds h includeOrphans :=
  List.mem_map_of_mem ((perm_flatten_toolGroups _).mem_iff.mpr
    (List.mem_append_left _ (List.mem_map_of_mem placed)))

section Tools

variable {s : Snapshot} {includeOrphans : Bool}

theorem mem_ringToolIds_iff {h : Hierarchy} {id : String} :
    id ∈ ringToolIds h includeOrphans ↔ ∃ t ∈ ringTools h includeOrphans, t.id = id := by
  rw [ringToolIds, ((perm_flatten_toolGroups _).map Tool.id).mem_iff, List.mem_map]

private theorem sublist_ringTools (h : Hierarchy) (includeOrphans : Bool) :
    (ringTools h includeOrphans).Sublist (ringTools h true) := by
  cases includeOrphans with
  | true => exact List.Sublist.refl _
  | false => exact (List.Sublist.refl _).append (List.nil_sublist _)

theorem mem_of_mem_ringTools {t : Tool} (member : t ∈ ringTools (build s) includeOrphans) :
    t ∈ s.tools :=
  (perm_tools s).mem_iff.mp ((sublist_ringTools (build s) includeOrphans).subset member)

theorem nodup_map_id_ringTools (distinct : (s.tools.map Tool.id).Nodup) (includeOrphans : Bool) :
    ((ringTools (build s) includeOrphans).map Tool.id).Nodup := by
  have all : ((ringTools (build s) true).map Tool.id).Nodup :=
    ((perm_tools s).map Tool.id).nodup_iff.mpr distinct
  exact all.sublist ((sublist_ringTools (build s) includeOrphans).map Tool.id)

end Tools

section Place

variable {α : Type} [NatCast α] [LT α] [LE α] [DecidableLT α] [DecidableLE α] [Add α] [Sub α]
  [Mul α] [Div α] [Circular α] [OfBinary α] (h : Hierarchy) (c : RadialConfig α)

theorem map_id_tools_place :
    (place h c).tools.map RingNode.id = ringToolIds h c.includeOrphans := by
  have items : (place h c).tools.map RingNode.item =
      ((toolGroups (ringTools h c.includeOrphans)).map (fun tools => tools.map .tool)).flatten :=
    map_item_ring _ _ _ _
  calc (place h c).tools.map RingNode.id
      = ((place h c).tools.map RingNode.item).map RingItem.id := List.map_map.symm
    _ = ringToolIds h c.includeOrphans := by
      rw [items, ← List.map_flatten, List.map_map]
      rfl

theorem perm_map_id_capabilities_place :
    ((place h c).capabilities.map RingNode.id).Perm (h.walk.map Tree.id) := by
  have items : (place h c).capabilities.map RingNode.item =
      [(capabilityOrder h).map
        (fun t => RingItem.capability t.entry.capability t.entry.level)].flatten :=
    map_item_ring _ _ _ _
  have ids : (place h c).capabilities.map RingNode.id =
      ((capabilityOrder h).map Tree.entry).map Entry.id := by
    calc (place h c).capabilities.map RingNode.id
        = ((place h c).capabilities.map RingNode.item).map RingItem.id := List.map_map.symm
      _ = ((capabilityOrder h).map Tree.entry).map Entry.id := by
        rw [items, List.flatten_singleton, List.map_map, List.map_map]
        rfl
  have walk : (h.walk.map Tree.entry).map Entry.id = h.walk.map Tree.id := List.map_map
  rw [ids, ← walk]
  exact (perm_capabilityOrder h).map Entry.id

/-- The nodes on the rings are the capabilities of the tree and the tools of the outer ring. -/
theorem perm_map_id_nodes_place :
    ((place h c).nodes.map RingNode.id).Perm
      (h.walk.map Tree.id ++ ringToolIds h c.includeOrphans) := by
  rw [Rings.nodes, List.map_append, map_id_tools_place]
  exact (perm_map_id_capabilities_place h c).append_right _

theorem isSome_point?_place_iff (id : String) :
    ((place h c).point? id).isSome ↔
      id ∈ h.walk.map Tree.id ∨ id ∈ ringToolIds h c.includeOrphans := by
  have nodes : ((place h c).point? id).isSome ↔ id ∈ (place h c).nodes.map RingNode.id := by
    rw [Rings.point?, Option.isSome_map, List.find?_isSome, List.mem_map]
    simp
  rw [nodes, (perm_map_id_nodes_place h c).mem_iff, List.mem_append]

end Place

end CapabilityAtlas.Layout
