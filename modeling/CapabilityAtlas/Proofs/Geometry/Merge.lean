import CapabilityAtlas.Geometry.HullGroup
import CapabilityAtlas.Proofs.Geometry.Component
import CapabilityAtlas.Proofs.Geometry.Convex
import Mathlib

set_option autoImplicit false
set_option relaxedAutoImplicit false

/-!
Merging hulls that overlap. Groups that overlap, directly or through others, become one part, and
groups of different parts do not overlap. But the hull of a part is larger than what it is drawn
around, so it can reach a hull that none of its members overlaps: merging once is enough exactly if
no hull of several groups does.
-/

namespace CapabilityAtlas.Geometry

variable {α : Type} [Sub α] [Mul α] [NatCast α] [LT α] [LE α] [DecidableLT α] [DecidableLE α]

private theorem segmentsIntersect_comm (p1 p2 p3 p4 : Point α) :
    segmentsIntersect p1 p2 p3 p4 = segmentsIntersect p3 p4 p1 p2 := by
  dsimp only [segmentsIntersect]
  ac_rfl

private theorem any_any_comm {β γ : Type} (xs : List β) (ys : List γ) (r : β → γ → Bool) :
    xs.any (fun x => ys.any (r x)) = ys.any (fun y => xs.any (fun x => r x y)) := by
  rw [Bool.eq_iff_iff]
  simp only [List.any_eq_true]
  constructor
  · rintro ⟨x, hx, y, hy, holds⟩
    exact ⟨y, hy, x, hx, holds⟩
  · rintro ⟨y, hy, x, hx, holds⟩
    exact ⟨x, hx, y, hy, holds⟩

variable [Add α] [Div α]

theorem hullsIntersect_comm (first second : List (Point α)) :
    hullsIntersect first second = hullsIntersect second first := by
  have crossing : (sides first).any (fun s => (sides second).any (fun t =>
      segmentsIntersect s.1 s.2 t.1 t.2)) =
        (sides second).any (fun t => (sides first).any (fun s =>
          segmentsIntersect t.1 t.2 s.1 s.2)) := by
    rw [any_any_comm]
    simp only [segmentsIntersect_comm]
  unfold hullsIntersect
  rw [crossing, Bool.or_assoc, Bool.or_comm (first.any _), ← Bool.or_assoc]
  simp only [or_comm]

namespace HullGroup

def Apart (first second : HullGroup α) : Prop := hullsIntersect first.points second.points = false

instance (first second : HullGroup α) : Decidable (Apart first second) :=
  inferInstanceAs (Decidable (_ = _))

/-- The groups that are merged with each other, for each group of the result. -/
def parts (groups : List (HullGroup α)) : List (List (HullGroup α)) :=
  (components groups.length (overlap groups)).map (fun indices => indices.filterMap (groups[·]?))

private theorem merge_eq (groups : List (HullGroup α)) :
    merge groups = (parts groups).filterMap combine := by
  rw [parts, List.filterMap_map]
  rfl

private theorem overlap_comm (groups : List (HullGroup α)) (i j : Nat) :
    overlap groups i j = overlap groups j i := by
  unfold overlap
  cases groups[i]? with
  | none => cases groups[j]? <;> rfl
  | some first =>
    cases groups[j]? with
    | none => rfl
    | some second => exact hullsIntersect_comm first.points second.points

private theorem pairwise_apart_iff {groups : List (HullGroup α)} :
    groups.Pairwise Apart ↔
      ∀ i j, i < j → j < groups.length → overlap groups i j = false := by
  rw [List.pairwise_iff_getElem]
  have apart : ∀ i j (hi : i < groups.length) (hj : j < groups.length),
      Apart groups[i] groups[j] ↔ overlap groups i j = false := by
    intro i j hi hj
    rw [overlap, List.getElem?_eq_getElem hi, List.getElem?_eq_getElem hj]
    rfl
  constructor
  · intro all i j above below
    exact (apart i j (by omega) below).mp (all i j (by omega) below above)
  · intro all i j hi hj above
    exact (apart i j hi hj).mpr (all i j above hj)

private theorem pairwise_parts (groups : List (HullGroup α)) :
    (parts groups).Pairwise (fun part other => ∀ a ∈ part, ∀ b ∈ other, Apart a b) := by
  rw [parts, List.pairwise_map]
  refine (pairwise_components (overlap_comm groups)).imp ?_
  intro indices others unrelated a ha b hb
  obtain ⟨i, hi, foundA⟩ := List.mem_filterMap.mp ha
  obtain ⟨j, hj, foundB⟩ := List.mem_filterMap.mp hb
  have separate := (unrelated i hi j hj).2
  rw [overlap, foundA, foundB] at separate
  exact separate

theorem exists_combine_of_mem_parts {groups part : List (HullGroup α)}
    (member : part ∈ parts groups) : ∃ hull, combine part = some hull := by
  obtain ⟨indices, listed, rfl⟩ := List.mem_map.mp member
  obtain ⟨i, hi⟩ := List.exists_mem_of_ne_nil _ (ne_nil_of_mem_components listed)
  have below : i < groups.length := lt_of_mem_components listed hi
  have inside : groups[i] ∈ indices.filterMap (groups[·]?) :=
    List.mem_filterMap.mpr ⟨i, hi, List.getElem?_eq_getElem below⟩
  cases within : indices.filterMap (groups[·]?) with
  | nil => simp [within] at inside
  | cons first rest =>
    cases rest with
    | nil => exact ⟨first, rfl⟩
    | cons second rest => exact ⟨_, rfl⟩

omit [Add α] [Div α] in
private theorem mem_of_combine {part : List (HullGroup α)} {group : HullGroup α}
    (single : ¬ 1 < part.length) (combined : combine part = some group) : group ∈ part := by
  match part with
  | [] => simp [combine] at combined
  | [own] =>
    obtain rfl := Option.some.inj combined
    exact List.mem_cons_self
  | _ :: _ :: _ => simp at single

private theorem filterMap_getElem?_range {β : Type} (members : List β) :
    (List.range members.length).filterMap (members[·]?) = members := by
  have all : (List.range members.length).map (members[·]?) = members.map some := by
    apply List.ext_getElem
    · simp
    · intro i below _
      simp
  calc (List.range members.length).filterMap (members[·]?)
      = ((List.range members.length).map (members[·]?)).filterMap id := by
        rw [List.filterMap_map]
        rfl
    _ = members := by
      rw [all, List.filterMap_map]
      exact List.filterMap_some

theorem sublist_of_mem_parts {groups part : List (HullGroup α)} (member : part ∈ parts groups) :
    part.Sublist groups := by
  obtain ⟨indices, listed, rfl⟩ := List.mem_map.mp member
  obtain ⟨least, -, rfl⟩ := List.mem_map.mp listed
  refine (List.filter_sublist.filterMap _).trans ?_
  rw [filterMap_getElem?_range]

omit [Add α] [Div α] in
theorem members_of_combine {part : List (HullGroup α)} {hull : HullGroup α}
    (combined : combine part = some hull) : hull.members = part.flatMap HullGroup.members := by
  match part with
  | [] => simp [combine] at combined
  | [own] =>
    obtain rfl := Option.some.inj combined
    exact (List.flatMap_singleton ..).symm
  | _ :: _ :: _ =>
    obtain rfl := Option.some.inj combined
    rfl

/-- If every group has distinct members, the merged ones do exactly if no two groups of a part have
a member in common. -/
theorem nodup_members_merge_iff {groups : List (HullGroup α)}
    (own : ∀ group ∈ groups, group.members.Nodup) :
    (∀ hull ∈ merge groups, hull.members.Nodup) ↔
      ∀ part ∈ parts groups, part.Pairwise (fun a b => a.members.Disjoint b.members) := by
  have nodup_iff : ∀ part ∈ parts groups, (part.flatMap HullGroup.members).Nodup ↔
      part.Pairwise (fun a b => a.members.Disjoint b.members) := by
    intro part member
    rw [List.nodup_flatMap]
    exact and_iff_right fun group inside => own group ((sublist_of_mem_parts member).subset inside)
  rw [merge_eq]
  constructor
  · intro distinct part member
    obtain ⟨hull, combined⟩ := exists_combine_of_mem_parts member
    rw [← nodup_iff part member, ← members_of_combine combined]
    exact distinct hull (List.mem_filterMap.mpr ⟨part, member, combined⟩)
  · intro apart hull member
    obtain ⟨part, listed, combined⟩ := List.mem_filterMap.mp member
    rw [members_of_combine combined, nodup_iff part listed]
    exact apart part listed

private theorem length_merge (groups : List (HullGroup α)) :
    (merge groups).length = (components groups.length (overlap groups)).length := by
  have all : ∀ part ∈ parts groups, (combine part).isSome := fun part member =>
    Option.isSome_iff_exists.mpr (exists_combine_of_mem_parts member)
  rw [merge_eq, List.length_filterMap_eq_countP, List.countP_eq_length.mpr all, parts,
    List.length_map]

private theorem merge_of_apart {groups : List (HullGroup α)} (apart : groups.Pairwise Apart) :
    merge groups = groups := by
  have single := components_of_unrelated (pairwise_apart_iff.mp apart)
  have each : ∀ i ∈ List.range groups.length,
      combine ([i].filterMap (groups[·]?)) = groups[i]? := by
    intro i member
    rw [List.getElem?_eq_getElem (List.mem_range.mp member)]
    simp [combine, List.getElem?_eq_getElem (List.mem_range.mp member)]
  rw [merge, single, List.filterMap_map]
  exact (List.filterMap_congr each).trans (filterMap_getElem?_range groups)

theorem length_merge_lt {groups : List (HullGroup α)} (overlapping : ¬ groups.Pairwise Apart) :
    (merge groups).length < groups.length := by
  rw [pairwise_apart_iff] at overlapping
  push Not at overlapping
  obtain ⟨i, j, above, below, holds⟩ := overlapping
  rw [length_merge]
  exact length_components_lt above below (Bool.not_eq_false _ ▸ holds)

theorem merge_eq_self_iff {groups : List (HullGroup α)} :
    merge groups = groups ↔ groups.Pairwise Apart := by
  refine ⟨fun same => ?_, merge_of_apart⟩
  by_contra overlapping
  have fewer := length_merge_lt overlapping
  rw [same] at fewer
  exact Nat.lt_irrefl _ fewer

private theorem pairwise_apart_iterate (n : Nat) (groups : List (HullGroup α))
    (bound : groups.length ≤ n) :
    (merge^[n] groups).Pairwise Apart := by
  -- Every merge that changes something leaves fewer groups, so the bound comes down with each.
  induction n generalizing groups with
  | zero =>
    obtain rfl := List.length_eq_zero_iff.mp (Nat.le_zero.mp bound)
    exact List.Pairwise.nil
  | succ n ih =>
    by_cases apart : groups.Pairwise Apart
    · rw [Function.iterate_fixed (merge_of_apart apart)]
      exact apart
    · have fewer := length_merge_lt apart
      rw [Function.iterate_succ_apply]
      exact ih (merge groups) (by omega)

/-- The merged hulls do not overlap exactly if the hull of no part of several groups overlaps that
of another part. Only then does merging again change nothing; merged once for each group, the hulls
do not overlap in any case. -/
theorem pairwise_apart_merge_iff (groups : List (HullGroup α)) :
    ((merge groups).Pairwise Apart ↔
      (parts groups).Pairwise (fun part other => 1 < part.length ∨ 1 < other.length →
        ∀ a ∈ combine part, ∀ b ∈ combine other, Apart a b)) ∧
    (merge (merge groups) = merge groups ↔ (merge groups).Pairwise Apart) ∧
    (merge^[groups.length] groups).Pairwise Apart := by
  refine ⟨?_, merge_eq_self_iff, pairwise_apart_iterate _ _ (Nat.le_refl _)⟩
  rw [merge_eq, List.pairwise_filterMap]
  constructor
  · exact fun all => all.imp fun apart _ a ha b hb => apart a ha b hb
  · intro enlarged
    refine ((pairwise_parts groups).and enlarged).imp ?_
    rintro part other ⟨members, hulls⟩ a ha b hb
    by_cases several : 1 < part.length ∨ 1 < other.length
    · exact hulls several a ha b hb
    · obtain ⟨single, single'⟩ := not_or.mp several
      exact members a (mem_of_combine single ha) b (mem_of_combine single' hb)

/-- Two rectangles that share a corner, and a triangle between them that touches neither. -/
def cornerGroups : List (HullGroup ℚ) :=
  [([(0, 0), (8, 0), (8, 1), (0, 1)], "#111111", "a"),
    ([(0, 0), (1, 0), (1, 8), (0, 8)], "#222222", "b"),
    ([(2, 2), (3, 2), (2, 3)], "#333333", "c")].map (fun group => {
      points := group.1.map Point.ofPair
      color := group.2.1
      animated := false
      members := [group.2.2] })

/-- The hull around both rectangles contains the triangle. -/
theorem not_pairwise_apart_merge :
    (∀ group ∈ cornerGroups, IsConvex group.points) ∧
    (merge cornerGroups).map HullGroup.members = [["a", "b"], ["c"]] ∧
    ¬ (merge cornerGroups).Pairwise Apart ∧
    merge (merge cornerGroups) ≠ merge cornerGroups := by
  have convex : ∀ group ∈ cornerGroups, IsConvex group.points := by decide +kernel
  have merged : merge cornerGroups = [
      { points := [⟨0, 0⟩, ⟨8, 0⟩, ⟨8, 1⟩, ⟨1, 8⟩, ⟨0, 8⟩]
        color := "#111111", animated := false, members := ["a", "b"] },
      { points := [⟨2, 2⟩, ⟨3, 2⟩, ⟨2, 3⟩]
        color := "#333333", animated := false, members := ["c"] }] := by
    cbv
  have overlapping : ¬ (merge cornerGroups).Pairwise Apart := by
    rw [merged]
    decide +kernel
  exact ⟨convex, congrArg (List.map HullGroup.members) merged, overlapping,
    fun same => overlapping (merge_eq_self_iff.mp same)⟩

end HullGroup

end CapabilityAtlas.Geometry
