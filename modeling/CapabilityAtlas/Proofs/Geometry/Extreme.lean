import CapabilityAtlas.Proofs.Geometry.ConvexHull
import CapabilityAtlas.Proofs.Geometry.Plane
import Mathlib

set_option autoImplicit false
set_option relaxedAutoImplicit false

/-!
What a convex hull consists of. It spans the same region as the points it is drawn around. Of points
that are not all on one line it keeps the extreme ones: no other point of the region is passed on
the way from one point of it to another one only in its end.
-/

namespace CapabilityAtlas.Geometry

open Plane (filled)

variable {α : Type} [Field α] [LinearOrder α] {points others : List (Point α)} {v : Point α}

omit [Field α] in
theorem length_distinct (points : List (Point α)) :
    (Point.distinct points).length = points.toFinset.card := by
  have distinct := Point.distinct_spec points
  rw [← List.toFinset_card_of_nodup distinct.1]
  congr 1
  ext q
  simp [distinct.2]

omit [Field α] in
private theorem length_sorted (points : List (Point α)) :
    (Point.sorted points).length = points.toFinset.card := by
  rw [Point.sorted, List.length_mergeSort, length_distinct]

private theorem filled_eq_of_mem_iff (same : ∀ q, q ∈ points ↔ q ∈ others) :
    filled points = filled others := by
  simp only [filled, same]

variable [IsStrictOrderedRing α]

private theorem precedes_sorted_head {a : Point α} {rest : List (Point α)}
    (split : Point.sorted points = a :: rest) {q : Point α} (member : q ∈ points) :
    q = a ∨ Precedes rightward a q := by
  have ordered := Point.pairwise_sorted points
  rw [← Point.mem_sorted, split] at member
  rw [split] at ordered
  exact (List.mem_cons.mp member).imp_right fun later => List.rel_of_pairwise_cons ordered later

private theorem precedes_sorted_last {z : Point α} {front : List (Point α)}
    (split : Point.sorted points = front ++ [z]) {q : Point α} (member : q ∈ points) :
    q = z ∨ Precedes rightward q z := by
  have ordered := Point.pairwise_sorted points
  rw [← Point.mem_sorted, split, List.mem_append, List.mem_singleton] at member
  rw [split, List.pairwise_append] at ordered
  rcases member with earlier | last
  · exact Or.inr (ordered.2.2 q earlier z (List.mem_singleton_self z))
  · exact Or.inl last

omit [IsStrictOrderedRing α] in
private theorem eq_nil_of_onLine {ahead : Point α → Prop} (heading : IsHeading ahead)
    {a z : Point α}
    {l : List (Point α)} (flat : OnLine points) (spans : Spans ahead points (a :: l ++ [z])) :
    l = [] := by
  cases l with
  | nil => rfl
  | cons b l =>
    have before : (a, b) ∈ links (a :: b :: l ++ [z]) := List.mem_cons_self
    obtain ⟨c, after⟩ : ∃ c, (b, c) ∈ links (a :: b :: l ++ [z]) := by
      cases l with
      | nil => exact ⟨z, List.mem_cons_of_mem _ List.mem_cons_self⟩
      | cons c l => exact ⟨c, List.mem_cons_of_mem _ List.mem_cons_self⟩
    have bend := spans.bend heading before after
    have level := flat a (spans.subset (mem_of_mem_links before).1) b
      (spans.subset (mem_of_mem_links before).2) c (spans.subset (mem_of_mem_links after).2)
    exact absurd level bend.ne'

omit [IsStrictOrderedRing α] in
private theorem onLine_sorted (flat : OnLine points) : OnLine (Point.sorted points) := by
  simpa only [OnLine, Point.mem_sorted] using flat

theorem exists_convexHull_eq_of_onLine (flat : OnLine points)
    (several : 3 ≤ (Point.sorted points).length) :
    ∃ a mid z, Point.sorted points = a :: mid ++ [z] ∧ convexHull points = [a, z] := by
  obtain ⟨a, mid, z, l, u, split, lower, upper, whole⟩ := exists_chains several
  have flat' : OnLine (Point.sorted points).reverse := by
    simpa only [OnLine, List.mem_reverse] using onLine_sorted flat
  obtain rfl := eq_nil_of_onLine isHeading_rightward (onLine_sorted flat) lower
  obtain rfl := eq_nil_of_onLine isHeading_leftward flat' upper
  exact ⟨a, mid, z, split, whole⟩

omit [IsStrictOrderedRing α] in
private theorem convexHull_eq_sorted (few : (Point.sorted points).length < 3) :
    convexHull points = Point.sorted points := by
  rw [convexHull, hullOfSorted, if_pos few]

private theorem exists_along_of_between {a z q : Point α} (way : Precedes rightward a z)
    (flat : turn a z q = 0) (first : q = a ∨ Precedes rightward a q)
    (last : q = z ∨ Precedes rightward q z) : ∃ t, 0 ≤ t ∧ t ≤ 1 ∧ q = along a z t := by
  rcases first with rfl | after
  · exact ⟨0, le_refl 0, zero_le_one, (along_zero q z).symm⟩
  · rcases last with rfl | before
    · exact ⟨1, zero_le_one, le_refl 1, (along_one a q).symm⟩
    · obtain ⟨t, rfl⟩ := exists_along (isHeading_rightward.ne way) flat
      have left : (along a z t).sub a = (z.sub a).scale t := by
        ext
        · simp [along, Point.sub, Point.scale]
        · simp [along, Point.sub, Point.scale]
      have right : z.sub (along a z t) = (z.sub a).scale (1 - t) := by
        ext
        · simp only [along, Point.sub, Point.scale]
          ring
        · simp only [along, Point.sub, Point.scale]
          ring
      rw [Precedes, left] at after
      rw [Precedes, right] at before
      have low := isHeading_rightward.pos_of_scale way after
      have high := isHeading_rightward.pos_of_scale way before
      exact ⟨t, low.le, (sub_pos.mp high).le, rfl⟩

theorem exists_convexHull_eq_pair (flat : OnLine points) (several : 2 ≤ points.toFinset.card) :
    ∃ a ∈ points, ∃ z ∈ points, a ≠ z ∧ convexHull points = [a, z] ∧
      ∀ q ∈ points, ∃ t, 0 ≤ t ∧ t ≤ 1 ∧ q = along a z t := by
  obtain ⟨a, mid, z, split, whole⟩ : ∃ a mid z,
      Point.sorted points = a :: mid ++ [z] ∧ convexHull points = [a, z] := by
    rw [← length_sorted] at several
    rcases several.eq_or_lt with two | more
    · obtain ⟨a, z, pair⟩ := List.length_eq_two.mp two.symm
      exact ⟨a, [], z, pair, (convexHull_eq_sorted (by omega)).trans pair⟩
    · exact exists_convexHull_eq_of_onLine flat more
  have ha : a ∈ points := Point.mem_sorted.mp (by simp [split])
  have hz : z ∈ points := Point.mem_sorted.mp (by simp [split])
  have ordered := Point.pairwise_sorted points
  rw [split] at ordered
  have way : Precedes rightward a z := List.rel_of_pairwise_cons ordered (by simp)
  refine ⟨a, ha, z, hz, isHeading_rightward.ne way, whole, fun q member => ?_⟩
  exact exists_along_of_between way (flat a ha z hz q member) (precedes_sorted_head split member)
    (precedes_sorted_last split member)

/-- A hull spans the same region as the points it is drawn around. -/
theorem filled_convexHull (points : List (Point α)) :
    filled (convexHull points) = filled points := by
  rcases lt_or_ge (Point.sorted points).length 3 with few | several
  · rw [convexHull_eq_sorted few]
    exact filled_eq_of_mem_iff fun q => Point.mem_sorted
  · by_cases flat : OnLine points
    · rw [length_sorted] at several
      obtain ⟨a, ha, z, hz, -, whole, between⟩ := exists_convexHull_eq_pair flat (by omega)
      rw [whole]
      apply Set.Subset.antisymm
      · apply filled_subset
        simp [mem_filled ha, mem_filled hz]
      · apply filled_subset
        intro q member
        obtain ⟨t, low, high, rfl⟩ := between q member
        exact along_mem_filled (mem_filled (by simp)) (mem_filled (by simp)) low high
    · have hull := isHullOf_convexHull flat
      apply Set.Subset.antisymm
      · exact filled_subset fun q member => mem_filled (hull.subset member)
      · apply filled_subset
        intro q member
        rw [mem_filled_iff hull.toIsConvexCycle]
        exact fun s side => hull.encloses s side q member

private theorem mem_extremePoints_of_bend {u w : Point α} (inside : v ∈ filled points)
    (bend : turn u v w ≠ 0) (first : ∀ q ∈ points, 0 ≤ turn u v q)
    (second : ∀ q ∈ points, 0 ≤ turn v w q) : v ∈ (filled points).extremePoints α := by
  refine ⟨inside, ?_⟩
  rintro p hp q hq ⟨x, y, hx, hy, whole, reached⟩
  have flat : ∀ a b, (∀ q ∈ points, 0 ≤ turn a b q) → turn a b v = 0 → turn a b p = 0 := by
    intro a b left level
    have hp' := mul_nonneg hx.le (turn_nonneg_of_mem_filled left hp)
    have hq' := mul_nonneg hy.le (turn_nonneg_of_mem_filled left hq)
    rw [← reached, turn_combination whole] at level
    have zero : x * turn a b p = 0 := by linarith
    exact (mul_eq_zero.mp zero).resolve_left hx.ne'
  exact eq_of_flat_bend bend (flat u v first (turn_right_self u v))
    (flat v w second (turn_outer_self v w))

/-- The hull keeps the extreme points. -/
theorem mem_convexHull_iff (spread : ¬ OnLine points) :
    v ∈ convexHull points ↔ v ∈ (filled points).extremePoints α := by
  have hull := isHullOf_convexHull spread
  constructor
  · intro vertex
    obtain ⟨u, before⟩ := exists_side_to vertex
    obtain ⟨w, after⟩ := exists_side_from vertex
    exact mem_extremePoints_of_bend (mem_filled (hull.subset vertex))
      (hull.bend before after).ne' (hull.encloses _ before) (hull.encloses _ after)
  · intro extreme
    rw [← filled_convexHull points] at extreme
    have vertex : v ∈ {p | p ∈ convexHull points} := extremePoints_convexHull_subset extreme
    exact vertex

/-- Fewer than three points are their own hull, in order. Points on a line have the first and the
last of them as their hull. All others have their extreme points, counter-clockwise from the first,
with a left turn at every vertex and no point to the right of a side. -/
theorem convexHull_cases (points : List (Point α)) :
    (points.toFinset.card < 3 →
      (convexHull points).Pairwise (Precedes rightward) ∧
      ∀ q, q ∈ convexHull points ↔ q ∈ points) ∧
    (3 ≤ points.toFinset.card → OnLine points →
      ∃ a ∈ points, ∃ z ∈ points, convexHull points = [a, z] ∧ Precedes rightward a z ∧
        ∀ q ∈ points, (q = a ∨ Precedes rightward a q) ∧ (q = z ∨ Precedes rightward q z)) ∧
    (¬ OnLine points →
      IsConvexCycle (convexHull points) ∧
      (∀ v, v ∈ convexHull points ↔ v ∈ (filled points).extremePoints α) ∧
      (∀ c ∈ corners (convexHull points), 0 < turn c.1 c.2.1 c.2.2) ∧
      (∀ s ∈ sides (convexHull points), ∀ q ∈ points, 0 ≤ turn s.1 s.2 q) ∧
      ∃ a, (convexHull points).head? = some a ∧ a ∈ points ∧
        ∀ q ∈ points, q = a ∨ Precedes rightward a q) := by
  rw [← length_sorted]
  refine ⟨fun few => ?_, fun several flat => ?_, fun spread => ?_⟩
  · rw [convexHull_eq_sorted few]
    exact ⟨Point.pairwise_sorted points, fun q => Point.mem_sorted⟩
  · obtain ⟨a, mid, z, split, whole⟩ := exists_convexHull_eq_of_onLine flat several
    have ordered := Point.pairwise_sorted points
    rw [split] at ordered
    refine ⟨a, Point.mem_sorted.mp (by simp [split]), z, Point.mem_sorted.mp (by simp [split]),
      whole, List.rel_of_pairwise_cons ordered (by simp), fun q member => ?_⟩
    exact ⟨precedes_sorted_head split member, precedes_sorted_last split member⟩
  · have hull := isHullOf_convexHull spread
    obtain ⟨a, mid, z, l, u, split, -, -, whole⟩ :=
      exists_chains (three_le_length_sorted spread)
    refine ⟨hull.toIsConvexCycle, fun v => mem_convexHull_iff spread, ?_, hull.encloses, a, ?_,
      Point.mem_sorted.mp (by simp [split]), fun q member => precedes_sorted_head split member⟩
    · intro c corner
      obtain ⟨before, after⟩ := sides_of_mem_corners corner
      exact hull.bend before after
    · rw [whole]
      split
      · rfl
      · rfl

def triangleWithMiddle : List (Point ℚ) := [⟨1, 0⟩, ⟨0, 2⟩, ⟨0, 0⟩, ⟨2, 0⟩, ⟨0, 0⟩]

theorem convexHull_cases_of_triangle :
    ¬ OnLine triangleWithMiddle ∧ convexHull triangleWithMiddle = [⟨0, 0⟩, ⟨2, 0⟩, ⟨0, 2⟩] ∧
      ⟨2, 0⟩ ∈ (filled triangleWithMiddle).extremePoints ℚ ∧
      ⟨1, 0⟩ ∉ (filled triangleWithMiddle).extremePoints ℚ := by
  have spread : ¬ OnLine triangleWithMiddle := by decide +kernel
  have hull : convexHull triangleWithMiddle = [⟨0, 0⟩, ⟨2, 0⟩, ⟨0, 2⟩] := by cbv
  obtain ⟨-, extreme, -⟩ := (convexHull_cases triangleWithMiddle).2.2 spread
  rw [hull] at extreme
  refine ⟨spread, hull, (extreme ⟨2, 0⟩).mp (by decide +kernel), fun middle => ?_⟩
  have corner := (extreme ⟨1, 0⟩).mpr middle
  revert corner
  decide +kernel

end CapabilityAtlas.Geometry
