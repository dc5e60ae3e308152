import CapabilityAtlas.Hierarchy.Tree
import CapabilityAtlas.Proofs.Hierarchy.Ascent
import Mathlib.Data.List.Nodup

set_option autoImplicit false
set_option relaxedAutoImplicit false

/-!
Trees grown from entries whose links to parents all end. The trees hold every entry once, and below
each node stand exactly the entries that name it as their parent. Entries are dropped on the way
down, but none that lies deeper than the node that has been reached.
-/

namespace CapabilityAtlas.Hierarchy

namespace Tree

theorem mem_walk_self (t : Tree) : t ∈ walk t := by
  cases t
  exact List.mem_cons_self

theorem walkAll_eq_flatMap (ts : List Tree) : walkAll ts = ts.flatMap walk := by
  induction ts with
  | nil => rfl
  | cons t ts ih => rw [walkAll, ih, List.flatMap_cons]

private theorem mem_walkAll_iff {t : Tree} {ts : List Tree} :
    t ∈ walkAll ts ↔ ∃ u ∈ ts, t ∈ walk u := by
  rw [walkAll_eq_flatMap, List.mem_flatMap]

theorem mem_walkAll_of_mem {t : Tree} {ts : List Tree} (h : t ∈ ts) : t ∈ walkAll ts :=
  mem_walkAll_iff.mpr ⟨t, h, mem_walk_self t⟩

mutual

theorem child_mem_walk {u c : Tree} : (t : Tree) → u ∈ walk t → c ∈ u.children → c ∈ walk t
  | node e ts, hu, hc => by
    rcases List.mem_cons.mp hu with rfl | hu
    · exact List.mem_cons_of_mem _ (mem_walkAll_of_mem hc)
    · exact List.mem_cons_of_mem _ (child_mem_walkAll ts hu hc)

theorem child_mem_walkAll {u c : Tree} :
    (ts : List Tree) → u ∈ walkAll ts → c ∈ u.children → c ∈ walkAll ts
  | t :: ts, hu, hc => by
    rcases List.mem_append.mp hu with hu | hu
    · exact List.mem_append_left _ (child_mem_walk t hu hc)
    · exact List.mem_append_right _ (child_mem_walkAll ts hu hc)

end

end Tree

/-- Entries whose parents are entries too, and above each of which the climb ends. -/
structure Rooted (parentOf : Entry → Option String) (entries : List Entry)
    (tree : String → Option String) : Prop where
  nodup : (entries.map Entry.id).Nodup
  follows : ∀ e ∈ entries, parentOf e = tree e.id
  closed : ∀ e ∈ entries, ∀ p, tree e.id = some p → ∃ f ∈ entries, f.id = p
  grounded : ∀ id, Grounded tree id

variable {parentOf : Entry → Option String} {entries left : List Entry}
  {tree : String → Option String} {parent : Option String}

/-- The depth of a parent, where nothing lies above those without one. -/
def parentDepth (grounded : ∀ id, Grounded tree id) : Option String → Nat
  | none => 0
  | some p => depth grounded p

theorem Rooted.depth_eq (rooted : Rooted parentOf entries tree) {e : Entry} (he : e ∈ entries) :
    depth rooted.grounded e.id = parentDepth rooted.grounded (parentOf e) + 1 := by
  rw [rooted.follows e he]
  cases linked : tree e.id with
  | none => exact depth_of_eq_none rooted.grounded linked
  | some p => exact depth_of_eq_some rooted.grounded linked

/-- Entries that are left include all that lie deeper than a parent. -/
def Reaches (rooted : Rooted parentOf entries tree) (left : List Entry) (parent : Option String) :
    Prop :=
  ∃ q : Entry → Bool, left = entries.filter q ∧
    ∀ e ∈ entries, parentDepth rooted.grounded parent < depth rooted.grounded e.id → q e = true

theorem Rooted.reaches (rooted : Rooted parentOf entries tree) : Reaches rooted entries none :=
  ⟨fun _ => true, (List.filter_true entries).symm, fun _ _ _ => rfl⟩

namespace Reaches

variable {rooted : Rooted parentOf entries tree}

private theorem subset (reaches : Reaches rooted left parent) : left ⊆ entries := by
  obtain ⟨q, rfl, -⟩ := reaches
  exact List.filter_subset_self entries

theorem kids_eq (reaches : Reaches rooted left parent) :
    kids parentOf left parent = entries.filter (fun e => parentOf e = parent) := by
  obtain ⟨q, rfl, deep⟩ := reaches
  rw [kids, List.filter_filter]
  refine List.filter_congr fun e he => ?_
  by_cases below : parentOf e = parent
  · have found := deep e he (by rw [rooted.depth_eq he, below]; exact Nat.lt_succ_self _)
    simp [below, found]
  · simp [below]

theorem others (reaches : Reaches rooted left parent) {e : Entry}
    (he : e ∈ kids parentOf left parent) :
    Reaches rooted (others parentOf left parent) (some e.id) := by
  rw [reaches.kids_eq] at he
  obtain ⟨member, below⟩ := List.mem_filter.mp he
  have he' := rooted.depth_eq member
  rw [of_decide_eq_true below] at he'
  obtain ⟨q, rfl, deep⟩ := reaches
  refine ⟨fun f => decide (parentOf f ≠ parent) && q f,
    by rw [Hierarchy.others, List.filter_filter], ?_⟩
  intro f hf deeper
  change depth rooted.grounded e.id < depth rooted.grounded f.id at deeper
  have elsewhere : parentOf f ≠ parent := by
    intro same
    rw [rooted.depth_eq hf, same] at deeper
    omega
  simp [elsewhere, deep f hf (by omega)]

/-- What is grown stands at entries, each above those that name it, and below some child. -/
theorem grow_spec (reaches : Reaches rooted left parent) :
    ∀ t ∈ Tree.walkAll (grow parentOf left parent),
      t.entry ∈ entries ∧
      t.children.map Tree.entry = entries.filter (fun e => parentOf e = some t.id) ∧
      ∃ e ∈ entries, parentOf e = parent ∧ ∃ n, ascend tree n t.id = some e.id := by
  induction left, parent using grow.induct parentOf with
  | case1 left parent ih =>
    intro t ht
    rw [grow_eq] at ht
    obtain ⟨u, hu, ht⟩ := Tree.mem_walkAll_iff.mp ht
    obtain ⟨e, he, rfl⟩ := List.mem_map.mp hu
    have member : e ∈ entries := reaches.subset (List.mem_filter.mp he).1
    have below : parentOf e = parent := of_decide_eq_true (List.mem_filter.mp he).2
    have deeper := reaches.others he
    rcases List.mem_cons.mp ht with rfl | ht
    · refine ⟨member, ?_, e, member, below, 0, rfl⟩
      change List.map Tree.entry (grow parentOf _ _) = _
      rw [grow_eq, List.map_map]
      exact (List.map_id _).trans deeper.kids_eq
    · obtain ⟨inside, children, f, hf, above, n, reach⟩ := ih ⟨e, he⟩ deeper t ht
      refine ⟨inside, children, e, member, below, n + 1, ?_⟩
      rw [rooted.follows f hf] at above
      rw [ascend_succ_last, reach]
      exact above

theorem nodup_grow (reaches : Reaches rooted left parent) :
    ((Tree.walkAll (grow parentOf left parent)).map Tree.id).Nodup := by
  induction left, parent using grow.induct parentOf with
  | case1 left parent ih =>
    -- A node below a child climbs to that child.
    have climbs : ∀ e ∈ kids parentOf left parent, ∀ t ∈ Tree.walkAll
        (grow parentOf (Hierarchy.others parentOf left parent) (some e.id)),
          ∃ n, ascend tree (n + 1) t.id = some e.id := by
      intro e he t ht
      obtain ⟨-, -, f, hf, above, n, reach⟩ := (reaches.others he).grow_spec t ht
      refine ⟨n, ?_⟩
      rw [ascend_succ_last, reach]
      exact (rooted.follows f hf).symm.trans above
    rw [grow_eq, Tree.walkAll_eq_flatMap, List.flatMap_map, List.map_flatMap, List.nodup_flatMap]
    constructor
    · intro e he
      change (e.id :: List.map Tree.id (Tree.walkAll _)).Nodup
      refine List.nodup_cons.mpr ⟨?_, ih ⟨e, he⟩ (reaches.others he)⟩
      intro again
      obtain ⟨t, ht, same⟩ := List.mem_map.mp again
      obtain ⟨n, reach⟩ := climbs e he t ht
      rw [same] at reach
      exact OnCircle.not_grounded ⟨n, reach⟩ (rooted.grounded e.id)
    · have distinct : (kids parentOf left parent).Pairwise (fun e f => e.id ≠ f.id) := by
        rw [reaches.kids_eq]
        exact (List.pairwise_map.mp rooted.nodup).filter _
      refine distinct.imp_of_mem ?_
      intro e f he hf apart id inE inF
      have reachOf : ∀ g ∈ kids parentOf left parent, id ∈ List.map Tree.id (Tree.walk (.node g
          (grow parentOf (Hierarchy.others parentOf left parent) (some g.id)))) →
            ∃ n, ascend tree n id = some g.id := by
        intro g hg inG
        rcases List.mem_cons.mp inG with rfl | inG
        · exact ⟨0, rfl⟩
        · obtain ⟨t, ht, rfl⟩ := List.mem_map.mp inG
          obtain ⟨n, reach⟩ := climbs g hg t ht
          exact ⟨n + 1, reach⟩
      have depthOf : ∀ g ∈ kids parentOf left parent,
          depth rooted.grounded g.id = parentDepth rooted.grounded parent + 1 := by
        intro g hg
        rw [rooted.depth_eq (reaches.subset (List.mem_filter.mp hg).1),
          of_decide_eq_true (List.mem_filter.mp hg).2]
      obtain ⟨m, toE⟩ := reachOf e he inE
      obtain ⟨n, toF⟩ := reachOf f hf inF
      have depthE := depth_ascend rooted.grounded toE
      have depthF := depth_ascend rooted.grounded toF
      rw [depthOf e he] at depthE
      rw [depthOf f hf] at depthF
      obtain rfl : m = n := by omega
      exact apart (Option.some.inj (toE.symm.trans toF))

end Reaches

theorem Rooted.exists_mem_grow (rooted : Rooted parentOf entries tree) {e : Entry}
    (he : e ∈ entries) : ∃ t ∈ Tree.walkAll (grow parentOf entries none), t.entry = e := by
  have grown : ∀ n, ∀ e ∈ entries, depth rooted.grounded e.id = n →
      ∃ t ∈ Tree.walkAll (grow parentOf entries none), t.entry = e := by
    intro n
    induction n using Nat.strongRecOn with
    | ind n ih =>
      intro e he deep
      cases linked : tree e.id with
      | none =>
        have top : e ∈ kids parentOf entries none :=
          List.mem_filter.mpr ⟨he, decide_eq_true ((rooted.follows e he).trans linked)⟩
        refine ⟨.node e (grow parentOf (others parentOf entries none) (some e.id)),
          Tree.mem_walkAll_of_mem ?_, rfl⟩
        rw [grow_eq]
        exact List.mem_map_of_mem top
      | some p =>
        obtain ⟨f, hf, rfl⟩ := rooted.closed e he p linked
        have deeper := depth_of_eq_some rooted.grounded linked
        obtain ⟨u, hu, rfl⟩ := ih _ (by omega) f hf rfl
        have children := (rooted.reaches.grow_spec u hu).2.1
        have below : e ∈ u.children.map Tree.entry := by
          rw [children]
          exact List.mem_filter.mpr ⟨he, decide_eq_true ((rooted.follows e he).trans linked)⟩
        obtain ⟨t, ht, same⟩ := List.mem_map.mp below
        exact ⟨t, Tree.child_mem_walkAll _ hu ht, same⟩
  exact grown _ e he rfl

/-- The trees hold each entry once and nothing else. -/
theorem Rooted.perm_walk_grow (rooted : Rooted parentOf entries tree) :
    ((Tree.walkAll (grow parentOf entries none)).map Tree.id).Perm (entries.map Entry.id) := by
  refine (List.perm_ext_iff_of_nodup rooted.reaches.nodup_grow rooted.nodup).mpr fun id => ?_
  constructor
  · intro member
    obtain ⟨t, ht, rfl⟩ := List.mem_map.mp member
    exact List.mem_map_of_mem (rooted.reaches.grow_spec t ht).1
  · intro member
    obtain ⟨e, he, rfl⟩ := List.mem_map.mp member
    obtain ⟨t, ht, rfl⟩ := rooted.exists_mem_grow he
    exact List.mem_map.mpr ⟨t, ht, rfl⟩

theorem Rooted.grow_entries (rooted : Rooted parentOf entries tree) :
    (grow parentOf entries none).map Tree.entry = entries.filter (fun e => parentOf e = none) := by
  rw [grow_eq, List.map_map]
  exact (List.map_id _).trans rooted.reaches.kids_eq

end CapabilityAtlas.Hierarchy
