import CapabilityAtlas.Proofs.Hierarchy.Lineage
import CapabilityAtlas.Proofs.Layout.Coverage

set_option autoImplicit false
set_option relaxedAutoImplicit false

/-!
Routes as paths in a tree. The places of a layout and the root form a tree, in which a capability
hangs under its parent and a tool under the first of its parents. The ascents of a route are the
lineages of its ends there, so a route is the only simple path between them.
-/

namespace CapabilityAtlas.Layout

open CapabilityAtlas.Geometry CapabilityAtlas.Hierarchy

/-- Whether one stop hangs directly under another one: a capability under its parent, a tool under
the first of its parents, and what has no parent under the root, which is `none`. -/
inductive Under (h : Hierarchy) (includeOrphans : Bool) : Option String → Option String → Prop
  | capability {t : Tree} (member : t ∈ h.walk) :
      Under h includeOrphans (some t.id) (h.parents.get? t.id)
  | tool {t : Tool} (member : t ∈ ringTools h includeOrphans) :
      Under h includeOrphans (some t.id) (h.parentsOf t.id).head?

/-- Whether a stop lies at a point: the root in the center, any other at the point of the only node
with its id. -/
def Rings.IsAt {α : Type} (r : Rings α) : Option String → Point α → Prop
  | none, p => p = r.center
  | some id, p => ∃ n ∈ r.nodes, n.id = id ∧ n.point = p ∧ ∀ m ∈ r.nodes, m.id = id → m = n

variable {payload : Payload} {s : Snapshot} {includeOrphans : Bool} {id : String}

section Links

variable (accepted : Snapshot.ofPayload payload = .ok s)

include accepted

private theorem not_mem_activeIds_of_mem_ringToolIds
    (onRing : id ∈ ringToolIds (build s) includeOrphans) : id ∉ activeIds s := by
  obtain ⟨t, member, rfl⟩ := mem_ringToolIds_iff.mp onRing
  intro active
  obtain ⟨c, hc, same⟩ := List.mem_map.mp active
  have apart := (List.nodup_append.mp (Snapshot.nodup_ids accepted)).2.2
  exact apart _ (List.mem_map_of_mem (mem_of_mem_ringTools member)) _
    (List.mem_map_of_mem (List.mem_filter.mp hc).1) same.symm

private theorem get?_routeLinks_of_active (active : id ∈ activeIds s) :
    (routeLinks (build s)).get? id = (build s).parents.get? id := by
  have parentless : (build s).parentsOf id = [] := by
    unfold parentsOf
    split
    · rename_i p found
      have same : p.tool.id = id := by simpa using List.find?_some found
      rw [← same] at active
      exact absurd active (toolId_not_mem_activeIds accepted (List.mem_of_find?_eq_some found))
    · rfl
  rw [get?_routeLinks, parentless, List.head?_nil, Option.or_none]

private theorem mem_activeIds_of_get?_parents {parent : String}
    (linked : (build s).parents.get? id = some parent) :
    id ∈ activeIds s ∧ parent ∈ activeIds s :=
  mem_of_containerOf ((isForestOf_parents (nodup_activeIds accepted)).up_eq_some linked)

private theorem get?_routeLinks_of_tool (onRing : id ∈ ringToolIds (build s) includeOrphans) :
    (routeLinks (build s)).get? id = ((build s).parentsOf id).head? := by
  have uncontained : (build s).parents.get? id = none := by
    cases linked : (build s).parents.get? id with
    | none => rfl
    | some parent =>
      exact absurd (mem_activeIds_of_get?_parents accepted linked).1
        (not_mem_activeIds_of_mem_ringToolIds accepted onRing)
  rw [get?_routeLinks, uncontained, Option.none_or]

private theorem under_iff {low high : Option String} :
    Under (build s) includeOrphans low high ↔
      ∃ id, low = some id ∧ OnRings s includeOrphans id ∧
        high = (routeLinks (build s)).get? id := by
  have walk := perm_walk_build (nodup_activeIds accepted)
  constructor
  · rintro (⟨member⟩ | ⟨member⟩)
    · have active := walk.mem_iff.mp (List.mem_map_of_mem member)
      exact ⟨_, rfl, Or.inl active, (get?_routeLinks_of_active accepted active).symm⟩
    · have onRing := mem_ringToolIds_iff.mpr ⟨_, member, rfl⟩
      exact ⟨_, rfl, Or.inr onRing, (get?_routeLinks_of_tool accepted onRing).symm⟩
  · rintro ⟨id, rfl, active | onRing, rfl⟩
    · obtain ⟨t, member, rfl⟩ := List.mem_map.mp (walk.mem_iff.mpr active)
      rw [get?_routeLinks_of_active accepted active]
      exact .capability member
    · rw [get?_routeLinks_of_tool accepted onRing]
      obtain ⟨t, member, rfl⟩ := mem_ringToolIds_iff.mp onRing
      exact .tool member

private theorem rightUnique_under : Relator.RightUnique (Under (build s) includeOrphans) := by
  intro low high high' first second
  obtain ⟨id, rfl, -, rfl⟩ := (under_iff accepted).mp first
  obtain ⟨id', same, -, rfl⟩ := (under_iff accepted).mp second
  rw [Option.some.inj same]

end Links

section Ascent

variable (accepted : Snapshot.ofPayload payload = .ok s)

include accepted

private theorem mem_activeIds_of_get?_routeLinks {parent : String}
    (linked : (routeLinks (build s)).get? id = some parent) : parent ∈ activeIds s :=
  mem_activeIds_of_mem_routeLinks (nodup_activeIds accepted) (Keyed.mem_of_get? linked)

/-- Every ascent ends: it goes from parent to parent in a forest after its first step. -/
private theorem grounded_routeLinks (id : String) : Grounded (routeLinks (build s)).get? id := by
  have active : ∀ n id, id ∈ activeIds s → ascend (build s).parents.get? n id = none →
      Grounded (routeLinks (build s)).get? id := by
    intro n
    induction n with
    | zero => simp [ascend]
    | succ n ih =>
      intro id member ended
      have same := get?_routeLinks_of_active accepted member
      cases linked : (build s).parents.get? id with
      | none => exact grounded_of_eq_none (same.trans linked)
      | some parent =>
        rw [ascend_of_eq_some linked] at ended
        rw [grounded_iff_of_eq_some (same.trans linked)]
        exact ih parent (mem_activeIds_of_get?_parents accepted linked).2 ended
  cases linked : (routeLinks (build s)).get? id with
  | none => exact grounded_of_eq_none linked
  | some parent =>
    obtain ⟨n, ended⟩ := (isForestOf_parents (nodup_activeIds accepted)).grounded parent
    rw [grounded_iff_of_eq_some linked]
    exact active n parent (mem_activeIds_of_get?_routeLinks accepted linked) ended

/-- An ascent is a lineage, which ends in the root. -/
theorem lineage_ancestry (placed : OnRings s includeOrphans id) :
    Lineage (Under (build s) includeOrphans) (some id)
      ((ancestry (routeLinks (build s)) id).map some ++ [none]) := by
  obtain ⟨n, ended⟩ := grounded_routeLinks accepted id
  induction n generalizing id with
  | zero => simp [ascend] at ended
  | succ n ih =>
    have up := (under_iff accepted).mpr ⟨id, rfl, placed, rfl⟩
    cases linked : (routeLinks (build s)).get? id with
    | none =>
      rw [linked] at up
      rw [ancestry_of_eq_none linked]
      refine .step up (.top fun high above => ?_)
      obtain ⟨_, root, -⟩ := (under_iff accepted).mp above
      simp at root
    | some parent =>
      rw [linked] at up
      rw [ascend_of_eq_some linked] at ended
      rw [ancestry_eq_cons linked (grounded_routeLinks accepted id)]
      exact .step up (ih (Or.inl (mem_activeIds_of_get?_routeLinks accepted linked)) ended)

/-- The way between two places turns where their lineages meet. -/
theorem exists_meetAt_way {source target : String} (start : OnRings s includeOrphans source)
    (finish : OnRings s includeOrphans target) :
    ∃ climb top descent,
      way (routeLinks (build s)) source target = climb ++ top :: descent.reverse ∧
      MeetAt (Under (build s) includeOrphans) (some source) (some target) climb top descent := by
  obtain ⟨climb, top, rest, descent, rest', up, down, whole, apart⟩ :=
    wayBetween_spec (ancestry (routeLinks (build s)) source)
      (ancestry (routeLinks (build s)) target)
  have first := lineage_ancestry accepted start
  have second := lineage_ancestry accepted finish
  rw [up] at first
  rw [down] at second
  obtain rfl := (List.cons.inj
    (first.of_append.eq (rightUnique_under accepted) second.of_append)).2
  exact ⟨climb, top, descent, whole, rest, first, second, apart⟩

end Ascent

private theorem isAt_of_stop_eq_ok {α : Type} {r : Rings α} {stop : Option String} {p : Point α}
    (distinct : (r.nodes.map RingNode.id).Nodup) (found : r.stop stop = .ok p) : r.IsAt stop p := by
  cases stop with
  | none =>
    obtain rfl := Except.ok.inj found
    rfl
  | some id =>
    have placed : r.point? id = some p := by
      cases known : r.point? id with
      | none => simp [Rings.stop, known] at found
      | some q =>
        simp only [Rings.stop, known] at found
        exact congrArg some (Except.ok.inj found)
    obtain ⟨n, listed, rfl⟩ := Option.map_eq_some_iff.mp placed
    have own : n.id = id := by simpa using List.find?_some listed
    have member := List.mem_of_find?_eq_some listed
    refine ⟨n, member, own, rfl, fun m other same => ?_⟩
    exact List.inj_on_of_nodup_map distinct other member (same.trans own.symm)

section Place

variable {α : Type} [NatCast α] [LT α] [LE α] [DecidableLT α] [DecidableLE α] [Add α] [Sub α]
  [Mul α] [Div α] [Circular α] [OfBinary α]

private theorem nodup_map_id_nodes_place (accepted : Snapshot.ofPayload payload = .ok s)
    (c : RadialConfig α) : ((place (build s) c).nodes.map RingNode.id).Nodup := by
  have walk := perm_walk_build (nodup_activeIds accepted)
  have tools := nodup_map_id_ringTools (nodup_toolIds accepted) c.includeOrphans
  rw [(perm_map_id_nodes_place (build s) c).nodup_iff, List.nodup_append]
  refine ⟨walk.nodup_iff.mpr (nodup_activeIds accepted),
    ((perm_flatten_toolGroups _).map Tool.id).nodup_iff.mpr tools, ?_⟩
  rintro id active _ onRing rfl
  exact not_mem_activeIds_of_mem_ringToolIds accepted onRing (walk.mem_iff.mp active)

private theorem onRings_iff (accepted : Snapshot.ofPayload payload = .ok s) (c : RadialConfig α)
    (id : String) :
    OnRings s c.includeOrphans id ↔ id ∈ (place (build s) c).nodes.map RingNode.id := by
  rw [(perm_map_id_nodes_place (build s) c).mem_iff, List.mem_append,
    (perm_walk_build (nodup_activeIds accepted)).mem_iff]
  rfl

/-- Between any two places of an accepted snapshot there is one simple path. It climbs to their
lowest common ancestor, which may be the root, and descends from there. The route between them
passes the points of its stops, and the route back passes the same points in reverse. -/
theorem route_follows_simplePath (accepted : Snapshot.ofPayload payload = .ok s)
    (c : RadialConfig α) {source target : String}
    (start : source ∈ (place (build s) c).nodes.map RingNode.id)
    (finish : target ∈ (place (build s) c).nodes.map RingNode.id) :
    ∃ climb top descent points,
      (∀ stops, IsSimplePath (Under (build s) c.includeOrphans) (some source) (some target) stops ↔
        stops = climb ++ top :: descent.reverse) ∧
      (climb ++ [top]).IsChain (Under (build s) c.includeOrphans) ∧
      (descent ++ [top]).IsChain (Under (build s) c.includeOrphans) ∧
      IsLowestCommon (Under (build s) c.includeOrphans) (some source) (some target) top ∧
      (climb ++ top :: descent.reverse).count top = 1 ∧
      List.Forall₂ (place (build s) c).IsAt (climb ++ top :: descent.reverse) points ∧
      route (build s) (place (build s) c) source target = .ok points ∧
      route (build s) (place (build s) c) target source = .ok points.reverse := by
  rw [← onRings_iff accepted] at start finish
  have nodup := nodup_activeIds accepted
  have single : Relator.RightUnique (Under (build s) c.includeOrphans) :=
    rightUnique_under accepted
  obtain ⟨climb, top, descent, whole, meets⟩ := exists_meetAt_way accepted start finish
  obtain ⟨climb', top', descent', back, meets'⟩ := exists_meetAt_way accepted finish start
  obtain ⟨rfl, rfl, rfl⟩ := meets.symm.eq single meets'
  obtain ⟨points, run⟩ := exists_route_eq_ok nodup
    (fun id active => isSome_point?_of_onRings nodup c (Or.inl active))
    (isSome_point?_of_onRings nodup c start) (isSome_point?_of_onRings nodup c finish)
  have path := meets.isSimplePath single
  have stops := run
  rw [route, whole, mapM_eq_ok_iff] at stops
  obtain ⟨rest, first, second, -⟩ := id meets
  refine ⟨climb, top, descent, points, fun stops => meets.isSimplePath_iff single,
    (List.isChain_split.mp first.isChain).1, (List.isChain_split.mp second.isChain).1,
    meets.isLowestCommon single, List.count_eq_one_of_mem path.nodup (by simp), ?_, run, ?_⟩
  · exact stops.imp fun _ _ found =>
      isAt_of_stop_eq_ok (nodup_map_id_nodes_place accepted c) found
  · have reversed : descent ++ top :: climb.reverse =
        (climb ++ top :: descent.reverse).reverse := by simp
    rw [route, back, mapM_eq_ok_iff, reversed]
    exact List.forall₂_reverse_iff.mpr stops

end Place

/-- From a tool over its first parent and the root to its second parent. -/
theorem route_follows_simplePath_of_shared :
    ∃ s points, Snapshot.ofPayload (sharedToolPayload "t") = .ok s ∧
      "t" ∈ (place (build s) (canvasConfig (800 : Float) 600 none)).nodes.map RingNode.id ∧
      "d" ∈ (place (build s) (canvasConfig (800 : Float) 600 none)).nodes.map RingNode.id ∧
      List.Forall₂ (place (build s) (canvasConfig (800 : Float) 600 none)).IsAt
        [some "t", some "c", none, some "d"] points ∧
      route (build s) (place (build s) (canvasConfig (800 : Float) 600 none)) "t" "d" =
        .ok points ∧
      route (build s) (place (build s) (canvasConfig (800 : Float) 600 none)) "d" "t" =
        .ok points.reverse := by
  obtain ⟨s, accepted, t, c, d, toC, toRoot, toRoot'⟩ : ∃ s,
      Snapshot.ofPayload (sharedToolPayload "t") = .ok s ∧
      "t" ∈ ringToolIds (build s) false ∧ "c" ∈ activeIds s ∧ "d" ∈ activeIds s ∧
      (routeLinks (build s)).get? "t" = some "c" ∧ (routeLinks (build s)).get? "c" = none ∧
      (routeLinks (build s)).get? "d" = none :=
    ⟨_, rfl, by decide +kernel, by decide +kernel, by decide +kernel, by decide +kernel,
      by decide +kernel, by decide +kernel⟩
  have start := (onRings_iff accepted (canvasConfig (800 : Float) 600 none) "t").mp (Or.inr t)
  have finish := (onRings_iff accepted (canvasConfig (800 : Float) 600 none) "d").mp (Or.inl d)
  have path : IsSimplePath (Under (build s) false) (some "t") (some "d")
      [some "t", some "c", none, some "d"] := by
    have first : Under (build s) false (some "t") (some "c") :=
      (under_iff accepted).mpr ⟨"t", rfl, Or.inr t, toC.symm⟩
    have second : Under (build s) false (some "c") none :=
      (under_iff accepted).mpr ⟨"c", rfl, Or.inl c, toRoot.symm⟩
    have third : Under (build s) false (some "d") none :=
      (under_iff accepted).mpr ⟨"d", rfl, Or.inl d, toRoot'.symm⟩
    exact ⟨rfl, rfl, by simp [first, second, third], by simp⟩
  obtain ⟨climb, top, descent, points, only, -, -, -, -, places, there, back⟩ :=
    route_follows_simplePath accepted (canvasConfig (800 : Float) 600 none) start finish
  rw [← (only _).mp path] at places
  exact ⟨s, points, accepted, start, finish, places, there, back⟩

end CapabilityAtlas.Layout
