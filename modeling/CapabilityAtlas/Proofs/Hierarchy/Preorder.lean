import CapabilityAtlas.Keyed
import CapabilityAtlas.Proofs.Hierarchy.Growth

set_option autoImplicit false
set_option relaxedAutoImplicit false

/-!
Walks over trees, parents before children. A node is followed at once by everything below it, and
the children of a node come in the order in which it holds them. Where the trees follow links from
each node to the one above it, what lies below a node is what climbs to it.
-/

namespace CapabilityAtlas.Hierarchy

variable {up : String → Option String} {ts : List Tree} {t u : Tree}

namespace Tree

mutual

theorem prefix_of_walk_eq : (t : Tree) → (before rest : List Tree) →
    walk t = before ++ u :: rest → walkAll u.children <+: rest
  | node e ts, before, rest, split => by
    cases before with
    | nil =>
      obtain ⟨rfl, rfl⟩ := List.cons.inj split
      exact List.prefix_rfl
    | cons v before => exact prefix_of_walkAll_eq ts before rest (List.cons.inj split).2

private theorem prefix_of_walkAll_eq : (ts : List Tree) → (before rest : List Tree) →
    walkAll ts = before ++ u :: rest → walkAll u.children <+: rest
  | [], before, rest, split => by simp [walkAll] at split
  | t :: ts, before, rest, split => by
    rw [walkAll, List.append_eq_append_iff] at split
    rcases split with ⟨later, -, split⟩ | ⟨inside, first, split⟩
    · exact prefix_of_walkAll_eq ts later rest split
    · cases inside with
      | nil => exact prefix_of_walkAll_eq ts [] rest split.symm
      | cons v inside =>
        obtain ⟨rfl, rfl⟩ := List.cons.inj split
        exact (prefix_of_walk_eq t before inside first).trans (List.prefix_append _ _)

end

theorem sublist_walkAll (ts : List Tree) : ts.Sublist (walkAll ts) := by
  induction ts with
  | nil => exact List.Sublist.refl _
  | cons t ts ih =>
    have first : [t].Sublist (walk t) := List.singleton_sublist.mpr (mem_walk_self t)
    exact first.append ih

private theorem infix_walkAll_children (member : u ∈ walkAll ts) :
    walkAll u.children <:+: walkAll ts := by
  obtain ⟨before, rest, split⟩ := List.append_of_mem member
  obtain ⟨after, rfl⟩ := prefix_of_walkAll_eq ts before rest split
  exact ⟨before ++ [u], after, by rw [split]; simp⟩

mutual

theorem exists_ascend_of_mem_walk : (t : Tree) →
    (∀ v ∈ walk t, ∀ c ∈ v.children, up c.id = some v.id) →
      u ∈ walk t → ∃ n, ascend up n u.id = some t.id
  | node e ts, linked, member => by
    rcases List.mem_cons.mp member with rfl | below
    · exact ⟨0, rfl⟩
    · obtain ⟨c, child, n, reach⟩ := exists_ascend_of_mem_walkAll ts
        (fun v inside => linked v (List.mem_cons_of_mem _ inside)) below
      refine ⟨n + 1, ?_⟩
      rw [ascend_succ_last, reach]
      exact linked _ List.mem_cons_self c child

private theorem exists_ascend_of_mem_walkAll : (ts : List Tree) →
    (∀ v ∈ walkAll ts, ∀ c ∈ v.children, up c.id = some v.id) →
      u ∈ walkAll ts → ∃ r ∈ ts, ∃ n, ascend up n u.id = some r.id
  | t :: ts, linked, member => by
    rcases List.mem_append.mp member with inside | later
    · exact ⟨t, List.mem_cons_self, exists_ascend_of_mem_walk t
        (fun v inside => linked v (List.mem_append_left _ inside)) inside⟩
    · obtain ⟨r, top, reach⟩ := exists_ascend_of_mem_walkAll ts
        (fun v inside => linked v (List.mem_append_right _ inside)) later
      exact ⟨r, List.mem_cons_of_mem t top, reach⟩

end

end Tree

open CapabilityAtlas.Hierarchy.Tree

/-- Trees that hold every node at the place where its link to the node above it belongs, with
siblings in the order of their names and ids. -/
structure InOrder (up : String → Option String) (ts : List Tree) : Prop where
  nodup : ((walkAll ts).map Tree.id).Nodup
  closed : ∀ u ∈ walkAll ts, ∀ p, up u.id = some p → ∃ t ∈ walkAll ts, t.id = p
  top : ∀ u ∈ walkAll ts, u ∈ ts ↔ up u.id = none
  below : ∀ t ∈ walkAll ts, ∀ u ∈ walkAll ts, u ∈ t.children ↔ up u.id = some t.id
  sorted : ts.Pairwise (fun t u => Order.pairLe (t.name, t.id) (u.name, u.id))
  sortedBelow : ∀ t ∈ walkAll ts,
    t.children.Pairwise (fun t u => Order.pairLe (t.name, t.id) (u.name, u.id))

private theorem pair_sublist_of_mem {β : Type} {part all : List β} {a b : β}
    (inside : part.Sublist all)
    (nodup : all.Nodup) (ordered : [a, b].Sublist all) (first : a ∈ part) (second : b ∈ part) :
    [a, b].Sublist part := by
  classical
  have own : part.filter (· ∈ part) = part := List.filter_eq_self.mpr fun c member => by
    simpa using member
  have kept : all.filter (· ∈ part) = part := by
    have within := own ▸ inside.filter (· ∈ part)
    refine (within.eq_of_length (List.Perm.length_eq ?_)).symm
    refine (List.perm_ext_iff_of_nodup (nodup.sublist inside) (nodup.filter _)).mpr fun c => ?_
    rw [List.mem_filter, decide_eq_true_eq]
    exact ⟨fun member => ⟨inside.subset member, member⟩, And.right⟩
  have both := ordered.filter (· ∈ part)
  rw [kept] at both
  simpa [first, second] using both

namespace InOrder

variable (order : InOrder up ts)

include order

private theorem nodup_trees : (walkAll ts).Nodup := order.nodup.of_map _

private theorem eq_of_id_eq (first : t ∈ walkAll ts) (second : u ∈ walkAll ts)
    (same : t.id = u.id) :
    t = u := List.inj_on_of_nodup_map order.nodup first second same

private theorem linked (member : t ∈ walkAll ts) : ∀ c ∈ t.children, up c.id = some t.id :=
  fun c child => (order.below t member c (child_mem_walkAll ts member child)).mp child

private theorem mem_walkAll_children_iff (member : t ∈ walkAll ts) (inside : u ∈ walkAll ts) :
    u ∈ walkAll t.children ↔ ∃ n, ascend up (n + 1) u.id = some t.id := by
  constructor
  · intro below
    obtain ⟨c, child, n, reach⟩ := exists_ascend_of_mem_walkAll t.children
      (fun v hv => order.linked ((infix_walkAll_children member).subset hv)) below
    refine ⟨n, ?_⟩
    rw [ascend_succ_last, reach]
    exact order.linked member c child
  · rintro ⟨n, reach⟩
    induction n generalizing u with
    | zero =>
      have parent : up u.id = some t.id := by simpa [ascend] using reach
      exact mem_walkAll_of_mem ((order.below t member u inside).mpr parent)
    | succ n ih =>
      obtain ⟨p, parent, reach⟩ := Option.bind_eq_some_iff.mp reach
      obtain ⟨v, hv, rfl⟩ := order.closed u inside p parent
      exact child_mem_walkAll _ (ih hv reach) ((order.below v hv u inside).mpr parent)

/-- In a walk each id is followed at once by the ids that climb to it, and by no others of them
later. -/
theorem exists_below {before rest : List String} {id : String}
    (split : (walkAll ts).map Tree.id = before ++ id :: rest) :
    ∃ below after, rest = below ++ after ∧
      ∀ t ∈ walkAll ts, t.id ∈ below ↔ ∃ n, ascend up (n + 1) t.id = some id := by
  obtain ⟨first, others, whole, rfl, tail⟩ := List.map_eq_append_iff.mp split
  obtain ⟨t, later, rfl, rfl, rfl⟩ := List.map_eq_cons_iff.mp tail
  obtain ⟨after, rfl⟩ := prefix_of_walkAll_eq ts first later whole
  have member : t ∈ walkAll ts := whole ▸ List.mem_append_right _ List.mem_cons_self
  refine ⟨(walkAll t.children).map Tree.id, after.map Tree.id, List.map_append, fun u inside => ?_⟩
  rw [← order.mem_walkAll_children_iff member inside, List.mem_map]
  constructor
  · rintro ⟨v, below, same⟩
    rwa [← order.eq_of_id_eq ((infix_walkAll_children member).subset below) inside same]
  · exact fun below => ⟨u, below, rfl⟩

theorem pairwise_siblings : (walkAll ts).Pairwise (fun t u =>
    up t.id = up u.id → Order.pairLe (t.name, t.id) (u.name, u.id)) := by
  rw [List.pairwise_iff_forall_sublist]
  intro t u ordered siblings
  have inside : t ∈ walkAll ts := ordered.subset List.mem_cons_self
  have inside' : u ∈ walkAll ts := ordered.subset (List.mem_cons_of_mem t List.mem_cons_self)
  have among : ∀ nodes : List Tree, nodes.Sublist (walkAll ts) → t ∈ nodes → u ∈ nodes →
      nodes.Pairwise (fun t u => Order.pairLe (t.name, t.id) (u.name, u.id)) →
      Order.pairLe (t.name, t.id) (u.name, u.id) := fun nodes part first second sorted =>
    List.pairwise_iff_forall_sublist.mp sorted
      (pair_sublist_of_mem part order.nodup_trees ordered first second)
  cases parent : up t.id with
  | none =>
    exact among ts (sublist_walkAll ts) ((order.top t inside).mpr parent)
      ((order.top u inside').mpr (siblings ▸ parent)) order.sorted
  | some p =>
    obtain ⟨v, hv, rfl⟩ := order.closed t inside p parent
    exact among v.children ((sublist_walkAll _).trans (infix_walkAll_children hv).sublist)
      ((order.below v hv t inside).mpr parent)
      ((order.below v hv u inside').mpr (siblings ▸ parent)) (order.sortedBelow v hv)

end InOrder

end CapabilityAtlas.Hierarchy
