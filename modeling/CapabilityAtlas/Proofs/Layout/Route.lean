import CapabilityAtlas.Layout.Radial
import CapabilityAtlas.Proofs.Hierarchy.Membership
import CapabilityAtlas.Proofs.Outcome

set_option autoImplicit false
set_option relaxedAutoImplicit false

/-!
Where routes stop. A route passes its own ends and used capabilities only, so it can be drawn as
soon as both ends have a place beside those of the capabilities.
-/

namespace CapabilityAtlas.Layout

open CapabilityAtlas.Geometry CapabilityAtlas.Hierarchy

private theorem ancestry_of_eq_some {links : Keyed String} {id parent : String}
    (linked : links.get? id = some parent) :
    ancestry links id = id :: ancestry (links.erase id) parent := by
  rw [ancestry]
  split
  · rename_i found
    obtain rfl := Option.some.inj (linked.symm.trans found)
    rfl
  · rename_i missing
    simp [linked] at missing

theorem ancestry_of_eq_none {links : Keyed String} {id : String} (ended : links.get? id = none) :
    ancestry links id = [id] := by
  rw [ancestry]
  split
  · rename_i found
    simp [ended] at found
  · rfl

private theorem mem_ancestry {links : Keyed String} {id other : String}
    (member : other ∈ ancestry links id) : other = id ∨ ∃ key, (key, other) ∈ links := by
  -- A link that is followed is dropped, so what is left is part of the links at every step.
  induction links, id using ancestry.induct with
  | case1 links id parent linked ih =>
    rw [ancestry_of_eq_some linked] at member
    rcases List.mem_cons.mp member with here | above
    · exact Or.inl here
    · rcases ih above with rfl | ⟨key, link⟩
      · exact Or.inr ⟨id, Keyed.mem_of_get? linked⟩
      · exact Or.inr ⟨key, List.mem_of_mem_filter link⟩
  | case2 links id ended =>
    rw [ancestry_of_eq_none ended] at member
    exact Or.inl (List.mem_singleton.mp member)

theorem ancestry_congr {links links' : Keyed String} (same : links.get? = links'.get?)
    (id : String) : ancestry links id = ancestry links' id := by
  induction links, id using ancestry.induct generalizing links' with
  | case1 links id parent linked ih =>
    have erased : (links.erase id).get? = (links'.erase id).get? := by
      funext key
      rw [Keyed.get?_erase, Keyed.get?_erase, same]
    have linked' : links'.get? id = some parent := same ▸ linked
    rw [ancestry_of_eq_some linked, ancestry_of_eq_some linked', ih erased]
  | case2 links id ended =>
    have ended' : links'.get? id = none := same ▸ ended
    rw [ancestry_of_eq_none ended, ancestry_of_eq_none ended']

private theorem ascend_of_erase {links : Keyed String} {id start above : String} {n : Nat}
    (climb : ascend (links.erase id).get? n start = some above) :
    ascend links.get? n start = some above := by
  induction n generalizing start with
  | zero => exact climb
  | succ n ih =>
    cases linked : (links.erase id).get? start with
    | none => simp [ascend_of_eq_none linked] at climb
    | some parent =>
      rw [ascend_of_eq_some linked] at climb
      have linked' : links.get? start = some parent := by
        rw [Keyed.get?_erase] at linked
        split at linked
        · simp at linked
        · exact linked
      rw [ascend_of_eq_some linked']
      exact ih climb

private theorem ancestry_erase {links : Keyed String} {id start : String}
    (off : ∀ n, ascend links.get? n start ≠ some id) :
    ancestry (links.erase id) start = ancestry links start := by
  have apart : start ≠ id := fun same => off 0 (congrArg some same)
  induction links, start using ancestry.induct with
  | case1 links start parent linked ih =>
    have linked' : (links.erase id).get? start = some parent := by
      rw [Keyed.get?_erase_of_ne links apart, linked]
    have later : ∀ n, ascend (links.erase start).get? n parent ≠ some id := by
      intro n climb
      have whole := ascend_of_erase climb
      rw [← ascend_of_eq_some linked] at whole
      exact off (n + 1) whole
    have swap : (links.erase id).erase start = (links.erase start).erase id := by
      simp only [Keyed.erase, List.filter_filter, Bool.and_comm]
    rw [ancestry_of_eq_some linked, ancestry_of_eq_some linked', swap,
      ih later fun same => later 0 (congrArg some same)]
  | case2 links start ended =>
    have ended' : (links.erase id).get? start = none := by
      rw [Keyed.get?_erase_of_ne links apart, ended]
    rw [ancestry_of_eq_none ended, ancestry_of_eq_none ended']

/-- An ascent that ends comes nowhere twice, so no link that it needs has been dropped. -/
theorem ancestry_eq_cons {links : Keyed String} {id parent : String}
    (linked : links.get? id = some parent) (grounded : Grounded links.get? id) :
    ancestry links id = id :: ancestry links parent := by
  rw [ancestry_of_eq_some linked, ancestry_erase]
  intro n around
  rw [← ascend_of_eq_some linked] at around
  exact OnCircle.not_grounded ⟨n, around⟩ grounded

/-- The way between two ascents, each continued to the root, turns where they meet first. -/
theorem wayBetween_spec (up down : List String) :
    ∃ climb top rest descent rest', up.map some ++ [none] = climb ++ top :: rest ∧
      down.map some ++ [none] = descent ++ top :: rest' ∧
      wayBetween up down = climb ++ top :: descent.reverse ∧ climb.Disjoint descent := by
  unfold wayBetween
  split
  · rename_i top found
    obtain ⟨shared, front, rest, rfl, before⟩ := List.find?_eq_some_iff_append.mp found
    rw [List.contains_iff_mem] at shared
    obtain ⟨back, rest', rfl, fresh⟩ := List.eq_append_cons_of_mem shared
    have climb : (front ++ top :: rest).takeWhile
        (fun id => !(back ++ top :: rest').contains id) = front := by
      rw [List.takeWhile_append_of_pos before, List.takeWhile_cons_of_neg (by simp),
        List.append_nil]
    have descent : (back ++ top :: rest').takeWhile (· ≠ top) = back := by
      have other : ∀ id ∈ back, decide (id ≠ top) = true := by
        intro id member
        exact decide_eq_true fun same => fresh (same ▸ member)
      rw [List.takeWhile_append_of_pos other, List.takeWhile_cons_of_neg (by simp),
        List.append_nil]
    refine ⟨front.map some, some top, rest.map some ++ [none], back.map some,
      rest'.map some ++ [none], by simp, by simp, by rw [climb, descent]; simp, ?_⟩
    intro stop left right
    obtain ⟨id, inside, rfl⟩ := List.mem_map.mp left
    have apart : id ∉ back ++ top :: rest' := by simpa using before id inside
    exact apart (by simpa using Or.inl right)
  · rename_i missing
    refine ⟨up.map some, none, [], down.map some, [], rfl, rfl, by simp, ?_⟩
    intro stop left right
    obtain ⟨id, inside, rfl⟩ := List.mem_map.mp left
    have apart := List.find?_eq_none.mp missing id inside
    exact apart (List.contains_iff_mem.mpr (by simpa using right))

private theorem mem_of_mem_wayBetween {up down : List String} {id : String}
    (member : some id ∈ wayBetween up down) : id ∈ up ∨ id ∈ down := by
  unfold wayBetween at member
  split at member
  · rename_i top found
    simp only [List.mem_map, Option.some.injEq, exists_eq_right, List.mem_append,
      List.mem_singleton, List.mem_reverse] at member
    rcases member with (climb | rfl) | descent
    · exact Or.inl ((List.takeWhile_sublist _).subset climb)
    · exact Or.inl (List.mem_of_find?_eq_some found)
    · exact Or.inr ((List.takeWhile_sublist _).subset descent)
  · simpa using member

private theorem get?_flatMap_head? {placements : List Placement}
    (inside : ∀ p ∈ placements, p.parents ≠ []) (id : String) :
    Keyed.get? (placements.flatMap (fun p => (p.parents.head?.map (p.tool.id, ·)).toList)) id =
      (placements.find? (fun p => p.tool.id = id)).bind (fun p => p.parents.head?) := by
  induction placements with
  | nil => rfl
  | cons p rest ih =>
    rw [List.forall_mem_cons] at inside
    obtain ⟨parent, others, split⟩ := List.exists_cons_of_ne_nil inside.1
    rw [List.flatMap_cons, Keyed.get?_append, ih inside.2]
    by_cases same : p.tool.id = id
    · simp [split, Keyed.get?, same]
    · simp [split, Keyed.get?, same]

theorem get?_routeLinks (s : Snapshot) (id : String) :
    (routeLinks (build s)).get? id =
      ((build s).parents.get? id).or ((build s).parentsOf id).head? := by
  have first : ((build s).parentsOf id).head? =
      ((build s).placements.find? (fun p => p.tool.id = id)).bind (fun p => p.parents.head?) := by
    unfold parentsOf
    split
    · rename_i found
      rw [found]
      rfl
    · rename_i missing
      rw [missing]
      rfl
  rw [routeLinks, Keyed.get?_append, first,
    get?_flatMap_head? fun p placed => (of_mem_placements placed).2.2]

variable {α : Type} {s : Snapshot} {r : Rings α} {source target : String}

theorem mem_activeIds_of_mem_routeLinks (nodup : (activeIds s).Nodup) {key other : String}
    (link : (key, other) ∈ routeLinks (build s)) : other ∈ activeIds s := by
  rcases List.mem_append.mp link with nested | placed
  · have linked := Keyed.get?_of_mem (nodup_keys_forest (nodup_keys_firstParents _ _)) nested
    exact (mem_of_containerOf ((isForestOf_parents nodup).up_eq_some linked)).2
  · obtain ⟨p, hp, member⟩ := List.mem_flatMap.mp placed
    rw [Option.mem_toList, Option.map_eq_some_iff] at member
    obtain ⟨parent, first, same⟩ := member
    obtain ⟨-, rfl⟩ := Prod.mk.inj same
    exact mem_activeIds_of_mem_parents hp (List.mem_of_mem_head? first)

private theorem exists_stop_eq_ok (r : Rings α) (stop : Option String)
    (placed : ∀ id, stop = some id → (r.point? id).isSome) : ∃ p, r.stop stop = .ok p := by
  cases stop with
  | none => exact ⟨r.center, rfl⟩
  | some id =>
    obtain ⟨p, found⟩ := Option.isSome_iff_exists.mp (placed id rfl)
    refine ⟨p, ?_⟩
    simp only [Rings.stop, found]

/-- A route is found wherever its ends and the used capabilities have a place. -/
theorem exists_route_eq_ok (nodup : (activeIds s).Nodup)
    (capabilities : ∀ id ∈ activeIds s, (r.point? id).isSome)
    (start : (r.point? source).isSome) (finish : (r.point? target).isSome) :
    ∃ points, route (build s) r source target = .ok points := by
  have climb : ∀ bottom, (r.point? bottom).isSome →
      ∀ id ∈ ancestry (routeLinks (build s)) bottom, (r.point? id).isSome := by
    intro bottom placed id member
    rcases mem_ancestry member with rfl | ⟨key, link⟩
    · exact placed
    · exact capabilities id (mem_activeIds_of_mem_routeLinks nodup link)
  refine exists_mapM_eq_ok fun stop passed => exists_stop_eq_ok r stop ?_
  rintro id rfl
  rcases mem_of_mem_wayBetween passed with up | down
  · exact climb source start id up
  · exact climb target finish id down

end CapabilityAtlas.Layout
