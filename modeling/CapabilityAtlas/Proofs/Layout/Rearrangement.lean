import CapabilityAtlas.Layout.Radial
import CapabilityAtlas.Proofs.Hierarchy.Rearrangement
import CapabilityAtlas.Proofs.Layout.Ring
import CapabilityAtlas.Proofs.Layout.Route
import CapabilityAtlas.Proofs.Order

set_option autoImplicit false
set_option relaxedAutoImplicit false

/-!
Layouts do not show in which order the nodes were listed. Siblings, servers and tools are sorted by
keys that differ, and everything else is looked up by id or follows the edges.
-/

namespace CapabilityAtlas.Layout

open CapabilityAtlas.Geometry CapabilityAtlas.Hierarchy
open CapabilityAtlas.Snapshot (Rearranged)

section RingOrder

variable (parentOf : Entry → Option String)

abbrev parentIdOf (e : Entry) : Option String := e.capability.parentId

theorem arrangeAll_eq_map (ts : List Tree) : arrangeAll ts = ts.map arrange := by
  induction ts with
  | nil => rfl
  | cons t ts ih => rw [arrangeAll, ih, List.map_cons]

private def ringEntries (left : List Entry) (parent : Option String) : List Entry :=
  (Tree.walkAll (sortTrees (arrangeAll (grow parentOf left parent)))).map Tree.entry

private theorem ringEntries_eq (left : List Entry) (parent : Option String) :
    ringEntries parentOf left parent =
      (Order.sortByTexts (fun e => (e.name, e.id)) (kids parentOf left parent)).flatMap (fun e =>
        e :: ringEntries parentOf (others parentOf left parent) (some e.id)) := by
  have sorted : sortTrees (arrangeAll (grow parentOf left parent)) =
      (Order.sortByTexts (fun e => (e.name, e.id)) (kids parentOf left parent)).map (fun e =>
        .node e (sortTrees (arrangeAll (grow parentOf (others parentOf left parent)
          (some e.id))))) := by
    rw [grow_eq, arrangeAll_eq_map, List.map_map]
    exact (Order.map_sortByTexts (fun _ => rfl) _).symm
  rw [ringEntries, sorted, Tree.walkAll_eq_flatMap, List.flatMap_map, List.map_flatMap]
  rfl

end RingOrder

private def ringKey (b : Capability × Nat) : String × String := (b.1.name, b.1.id)

private theorem map_bare_sorted (entries : List Entry) :
    (Order.sortByTexts (fun e => (e.name, e.id)) entries).map bare =
      Order.sortByTexts ringKey (entries.map bare) := by
  have reads : ∀ e : Entry, ringKey (bare e) = (e.name, e.id) := fun _ => rfl
  exact Order.map_sortByTexts reads entries

private theorem map_bare_ringEntries (entries : List Entry) (parent : Option String) :
    (ringEntries parentIdOf entries parent).map bare =
      (Order.sortByTexts ringKey ((kids parentIdOf entries parent).map bare)).flatMap (fun b =>
        b :: (ringEntries parentIdOf (others parentIdOf entries parent)
          (some b.1.id)).map bare) := by
  rw [ringEntries_eq, List.map_flatMap, ← map_bare_sorted, List.flatMap_map]
  rfl

private theorem perm_map_bare_filter {left left' : List Entry}
    (perm : (left.map bare).Perm (left'.map bare)) (test : Capability × Nat → Bool) :
    ((left.filter (fun e => test (bare e))).map bare).Perm
      ((left'.filter (fun e => test (bare e))).map bare) := by
  have kept := perm.filter test
  rw [List.filter_map, List.filter_map] at kept
  exact kept

private theorem map_bare_ringEntries_eq {left left' : List Entry} {parent : Option String}
    (perm : (left.map bare).Perm (left'.map bare)) (distinct : (left.map Entry.id).Nodup) :
    (ringEntries parentIdOf left parent).map bare =
      (ringEntries parentIdOf left' parent).map bare := by
  induction left, parent using grow.induct parentIdOf generalizing left' with
  | case1 left parent ih =>
    have kidsPerm : ((kids parentIdOf left parent).map bare).Perm
        ((kids parentIdOf left' parent).map bare) :=
      perm_map_bare_filter perm fun b => b.1.parentId = parent
    have othersPerm : ((others parentIdOf left parent).map bare).Perm
        ((others parentIdOf left' parent).map bare) :=
      perm_map_bare_filter perm fun b => b.1.parentId ≠ parent
    have kidsDistinct : (((kids parentIdOf left parent).map bare).map
        (fun b => (ringKey b).2)).Nodup := by
      rw [List.map_map]
      exact distinct.sublist (List.filter_sublist.map Entry.id)
    have othersDistinct : ((others parentIdOf left parent).map Entry.id).Nodup :=
      distinct.sublist (List.filter_sublist.map Entry.id)
    rw [map_bare_ringEntries, map_bare_ringEntries,
      ← Order.sortByTexts_eq_of_perm kidsPerm kidsDistinct]
    refine List.flatMap_congr fun b member => ?_
    obtain ⟨e, he, rfl⟩ := List.mem_map.mp ((Order.perm_sortByTexts _ _).mem_iff.mp member)
    exact congrArg (bare e :: ·) (ih ⟨e, he⟩ othersPerm othersDistinct)

private theorem toolGroups_eq_of_perm {tools tools' : List Tool} (perm : tools.Perm tools')
    (distinct : (tools.map Tool.id).Nodup) : toolGroups tools = toolGroups tools' := by
  have servers : (firstOccurrences (tools.map Tool.server)).Perm
      (firstOccurrences (tools'.map Tool.server)) := by
    refine (List.perm_ext_iff_of_nodup (nodup_firstOccurrences _)
      (nodup_firstOccurrences _)).mpr fun server => ?_
    rw [mem_firstOccurrences, mem_firstOccurrences]
    exact (perm.map Tool.server).mem_iff
  rw [toolGroups, toolGroups, Order.sortTexts_eq_of_perm servers]
  refine List.map_congr_left fun server _ => ?_
  exact Order.sortByTexts_eq_of_perm (perm.filter _)
    (distinct.sublist (List.filter_sublist.map Tool.id))

section Layouts

variable {s s' : Snapshot} (moved : Rearranged s s') (acyclic : ∀ c, ¬ OnCircle (containerOf s) c)

include moved acyclic

private theorem capabilityItems_eq :
    (capabilityOrder (build s)).map
        (fun t => RingItem.capability t.entry.capability t.entry.level) =
      (capabilityOrder (build s')).map
        (fun t => RingItem.capability t.entry.capability t.entry.level) := by
  have items : ∀ s : Snapshot, (capabilityOrder (build s)).map
      (fun t => RingItem.capability t.entry.capability t.entry.level) =
        ((ringEntries parentIdOf (build s).entries none).map bare).map
          (fun b => RingItem.capability b.1 b.2) := by
    intro s
    rw [ringEntries, List.map_map, List.map_map]
    rfl
  have distinct : ((build s).entries.map Entry.id).Nodup :=
    map_id_entries ▸ nodup_activeIds_of_rearranged moved
  rw [items, items, map_bare_ringEntries_eq (perm_map_bare_entries moved acyclic) distinct]

omit acyclic in
private theorem toolGroups_ringTools_eq (includeOrphans : Bool) :
    toolGroups (ringTools (build s) includeOrphans) =
      toolGroups (ringTools (build s') includeOrphans) := by
  have distinct := nodup_map_id_ringTools (nodup_toolIds_of_rearranged moved) includeOrphans
  have placed := (perm_placements moved).map Placement.tool
  cases includeOrphans with
  | true => exact toolGroups_eq_of_perm (placed.append (perm_orphans moved)) distinct
  | false => exact toolGroups_eq_of_perm (placed.append (List.Perm.refl _)) distinct

private theorem get?_routeLinks_eq :
    (routeLinks (build s)).get? = (routeLinks (build s')).get? := by
  funext key
  rw [get?_routeLinks, get?_routeLinks, get?_parents_eq moved acyclic,
    parentsOf_eq_of_rearranged moved]

variable {α : Type} [NatCast α] [Add α] [Sub α] [Mul α] [Div α]

theorem bundle_eq (r : Rings α) (tension : α) :
    bundle (build s) r tension = bundle (build s') r tension := by
  have route : ∀ source target, route (build s) r source target =
      route (build s') r source target := by
    intro source target
    simp only [Layout.route, way, ancestry_congr (get?_routeLinks_eq moved acyclic)]
  have path : bundledPath (build s) r tension = bundledPath (build s') r tension := by
    funext id c
    rw [bundledPath, bundledPath, route]
  have drawn : drawn (build s) r = drawn (build s') r := by
    simp only [Layout.drawn, connections, parentsOf_eq_of_rearranged moved,
      capabilityLinks_eq moved, toolLinks_eq moved]
  rw [bundle, bundle, path, drawn]

variable [LT α] [LE α] [DecidableLT α] [DecidableLE α] [Circular α] [OfBinary α]

theorem radialLayout_eq (c : RadialConfig α) :
    radialLayout (build s) c = radialLayout (build s') c := by
  have rings : place (build s) c = place (build s') c := by
    rw [place, place, capabilityItems_eq moved acyclic,
      toolGroups_ringTools_eq moved]
  rw [radialLayout, radialLayout, layoutAt, layoutAt, rings]
  simp only [bundle_eq moved acyclic]

end Layouts

/-- Two accepted lists of the same nodes, each with its own id, and the same edges give one layout
on every canvas in every style, if containers do not run in circles. -/
theorem layoutOnCanvas_eq_of_perm {fields fields' : Fields} {nodes nodes' edges : List Payload}
    {s s' : Snapshot} (perm : nodes.Perm nodes') (distinct : Snapshot.DistinctIds nodes)
    (nodesListed : Snapshot.listed (fields.get "nodes") = some nodes)
    (nodesListed' : Snapshot.listed (fields'.get "nodes") = some nodes')
    (edgesListed : Snapshot.listed (fields.get "edges") = some edges)
    (edgesListed' : Snapshot.listed (fields'.get "edges") = some edges)
    (accepted : Snapshot.ofPayload (.record fields) = .ok s)
    (accepted' : Snapshot.ofPayload (.record fields') = .ok s')
    (acyclic : ∀ c, ¬ OnCircle (containerOf s) c) (width height : Float)
    (tension : Option Float) (style : RadialStyle Float) :
    layoutOnCanvas (build s) width height tension style =
      layoutOnCanvas (build s') width height tension style ∧
    (build s).parents.get? = (build s').parents.get? ∧
    (build s).levels.get? = (build s').levels.get? := by
  have moved := Snapshot.rearranged_of_perm perm distinct accepted accepted' nodesListed
    nodesListed' edgesListed edgesListed'
  refine ⟨?_, get?_parents_eq moved acyclic, get?_levels_eq moved acyclic⟩
  rw [layoutOnCanvas, layoutOnCanvas, checkedLayout, checkedLayout, radialLayout_eq moved acyclic]

/-- Two used capabilities, the first of which contains the second, and a tool of the second. -/
def nestedNodes : List Payload :=
  [.record [("id", .text "a"), ("type", .text "capability"), ("usage_count", .int 1)],
    .record [("id", .text "b"), ("type", .text "capability"), ("usage_count", .int 1)],
    .record [("id", .text "t"), ("type", .text "tool"), ("parents", .list [.text "b"])]]

def nestedFields (nodes : List Payload) : Fields :=
  [("nodes", .list nodes), ("edges", .list [.record [("source", .text "a"), ("target", .text "b"),
    ("edge_type", .text "contains")]])]

theorem layoutOnCanvas_eq_of_perm_of_nested :
    ∃ s s', Snapshot.ofPayload (.record (nestedFields nestedNodes)) = .ok s ∧
      Snapshot.ofPayload (.record (nestedFields nestedNodes.reverse)) = .ok s' ∧
      layoutOnCanvas (build s) 800 600 none = layoutOnCanvas (build s') 800 600 none := by
  obtain ⟨s, accepted⟩ : ∃ s, Snapshot.ofPayload (.record (nestedFields nestedNodes)) = .ok s :=
    ⟨_, rfl⟩
  obtain ⟨s', accepted'⟩ :
      ∃ s', Snapshot.ofPayload (.record (nestedFields nestedNodes.reverse)) = .ok s' := ⟨_, rfl⟩
  have acyclic : ∀ c, ¬ OnCircle (containerOf s) c := by
    have top : containerOf s "a" = none := by
      obtain rfl := Except.ok.inj accepted
      decide
    have below : containerOf s "b" = some "a" := by
      obtain rfl := Except.ok.inj accepted
      decide
    have ids : activeIds s = ["a", "b"] := by
      obtain rfl := Except.ok.inj accepted
      decide
    have notTop : ¬ OnCircle (containerOf s) "a" := fun circle =>
      circle.not_grounded (grounded_of_eq_none top)
    intro c circle
    obtain ⟨d, linked⟩ := circle.exists_up
    have member := (mem_of_containerOf linked).1
    rw [ids] at member
    rcases List.mem_cons.mp member with rfl | member
    · exact notTop circle
    · obtain rfl := List.mem_singleton.mp member
      exact notTop (circle.of_ascend (ascend_of_eq_some below 0))
  have same := layoutOnCanvas_eq_of_perm (List.reverse_perm nestedNodes).symm (by decide) rfl rfl
    rfl rfl accepted accepted' acyclic 800 600 none RadialStyle.standard
  exact ⟨s, s', accepted, accepted', same.1⟩

end CapabilityAtlas.Layout
