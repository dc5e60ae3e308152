import CapabilityAtlas.Proofs.Geometry.Crossing
import CapabilityAtlas.Proofs.Geometry.Merge
import CapabilityAtlas.Proofs.Geometry.Plane
import CapabilityAtlas.Proofs.Order

set_option autoImplicit false
set_option relaxedAutoImplicit false

/-!
When polygons overlap. Segments cross if each has the ends of the other on both of its sides, and
touch if one holds an end of the other. A way out of a convex polygon meets one of its sides, so two
convex polygons with a point in common either have sides that meet or hold each other's vertices.
-/

namespace CapabilityAtlas.Geometry

open Plane (filled)

section Segment

variable {α : Type} [Field α] [LinearOrder α] [IsStrictOrderedRing α] {a b c d p q : Point α}
  {t u v : α}

theorem mem_segment_iff : p ∈ segment α a b ↔ ∃ t, 0 ≤ t ∧ t ≤ 1 ∧ p = along a b t := by
  simp only [segment_eq_image, Set.mem_image, Set.mem_Icc, ← along_eq, and_assoc, eq_comm]

private theorem between_iff : between u v t ↔ t ∈ segment α u v := by
  rw [segment_eq_uIcc]
  simp [between, Scalar.smaller_eq_min, Scalar.larger_eq_max, Set.uIcc]

private theorem mix_mem_segment (low : 0 ≤ t) (high : t ≤ 1) : u + t * (v - u) ∈ segment α u v := by
  rw [segment_eq_image']
  exact ⟨t, ⟨low, high⟩, rfl⟩

private theorem of_mix_mem_segment (apart : u ≠ v) (inside : u + t * (v - u) ∈ segment α u v) :
    0 ≤ t ∧ t ≤ 1 := by
  rw [segment_eq_image'] at inside
  obtain ⟨s, bounds, same⟩ := inside
  obtain rfl : s = t := mul_right_cancel₀ (sub_ne_zero.mpr apart.symm) (add_left_cancel same)
  exact bounds

/-- A segment is what its line has in the box between its ends. -/
theorem mem_segment_iff_box : p ∈ segment α a b ↔ turn a b p = 0 ∧ inBox a b p := by
  rw [mem_segment_iff, inBox, Bool.and_eq_true, between_iff, between_iff]
  constructor
  · rintro ⟨t, low, high, rfl⟩
    refine ⟨?_, mix_mem_segment low high, mix_mem_segment low high⟩
    rw [turn_along, turn_outer_self, turn_right_self, mul_zero, mul_zero, add_zero]
  · rintro ⟨flat, across, upward⟩
    by_cases same : a = b
    · rw [same, segment_same] at across upward
      exact ⟨0, le_refl 0, zero_le_one, by simp_all [along, Point.ext_iff]⟩
    · obtain ⟨t, rfl⟩ := exists_along same flat
      suffices bounds : 0 ≤ t ∧ t ≤ 1 from ⟨t, bounds.1, bounds.2, rfl⟩
      by_cases level : a.x = b.x
      · have steep : a.y ≠ b.y := fun flat => same (Point.ext level flat)
        exact of_mix_mem_segment steep upward
      · exact of_mix_mem_segment level across

private theorem isZero_iff : isZero t ↔ t = 0 := by
  simp [isZero, Scalar.same, ← le_antisymm_iff]

private theorem opposite_iff : opposite u v ↔ u * v < 0 := by
  simp [opposite, mul_neg_iff]

omit [LinearOrder α] [IsStrictOrderedRing α] in
private theorem lineSide_eq (a b p : Point α) : lineSide a b p = -turn a b p := by
  unfold lineSide turn
  ring

theorem segmentsIntersect_iff_turns : segmentsIntersect a b c d ↔
    (turn c d a * turn c d b < 0 ∧ turn a b c * turn a b d < 0) ∨ a ∈ segment α c d ∨
      b ∈ segment α c d ∨ c ∈ segment α a b ∨ d ∈ segment α a b := by
  simp only [segmentsIntersect, Bool.or_eq_true, Bool.and_eq_true, opposite_iff, isZero_iff,
    lineSide_eq, neg_mul_neg, neg_eq_zero, mem_segment_iff_box, or_assoc]

/-- Numbers of different signs are mixed to zero with weights between zero and one. -/
private theorem weight_mem (across : u * v < 0) : 0 ≤ u / (u - v) ∧ u / (u - v) ≤ 1 := by
  rcases mul_neg_iff.mp across with ⟨first, second⟩ | ⟨first, second⟩
  · have positive : 0 < u - v := by linarith
    refine ⟨div_nonneg first.le positive.le, ?_⟩
    rw [div_le_one positive]
    linarith
  · have negative : u - v < 0 := by linarith
    refine ⟨div_nonneg_of_nonpos first.le negative.le, ?_⟩
    rw [div_le_one_of_neg negative]
    linarith

private theorem sub_ne_zero_of_mul_neg (across : u * v < 0) : u - v ≠ 0 := by
  intro same
  rw [sub_eq_zero.mp same] at across
  exact (mul_self_nonneg v).not_gt across

private theorem exists_mem_segments (touch : segmentsIntersect a b c d) :
    ∃ p, p ∈ segment α a b ∧ p ∈ segment α c d := by
  rcases segmentsIntersect_iff_turns.mp touch with ⟨first, second⟩ | ends
  · obtain ⟨low, high⟩ := weight_mem first
    obtain ⟨low', high'⟩ := weight_mem second
    have nonzero := sub_ne_zero_of_mul_neg first
    have nonzero' := sub_ne_zero_of_mul_neg second
    have meet : along a b (turn c d a / (turn c d a - turn c d b)) =
        along c d (turn a b c / (turn a b c - turn a b d)) := by
      ext
      · simp only [along]
        field_simp
        unfold turn
        ring
      · simp only [along]
        field_simp
        unfold turn
        ring
    refine ⟨_, mem_segment_iff.mpr ⟨_, low, high, rfl⟩, ?_⟩
    rw [meet]
    exact mem_segment_iff.mpr ⟨_, low', high', rfl⟩
  · rcases ends with ha | hb | hc | hd
    · exact ⟨a, left_mem_segment α a b, ha⟩
    · exact ⟨b, right_mem_segment α a b, hb⟩
    · exact ⟨c, hc, left_mem_segment α c d⟩
    · exact ⟨d, hd, right_mem_segment α c d⟩

omit [IsStrictOrderedRing α] in
theorem along_mem_segment (inside : t ∈ segment α u v) :
    along c d t ∈ segment α (along c d u) (along c d v) := by
  obtain ⟨x, y, hx, hy, whole, rfl⟩ := inside
  refine ⟨x, y, hx, hy, whole, ?_⟩
  obtain rfl : x = 1 - y := eq_sub_of_add_eq whole
  ext
  · simp only [along, Point.add_x, Point.smul_x, smul_eq_mul]
    ring
  · simp only [along, Point.add_y, Point.smul_y, smul_eq_mul]
    ring

private theorem end_mem_segment_of_flat (inside : p ∈ segment α c d) (flat : turn c d a = 0) :
    a ∈ segment α c d ∨ c ∈ segment α a p ∨ d ∈ segment α a p := by
  obtain ⟨v, low, high, rfl⟩ := mem_segment_iff.mp inside
  by_cases same : c = d
  · rw [← same, along_self]
    exact Or.inr (Or.inl (right_mem_segment α a c))
  · obtain ⟨u, rfl⟩ := exists_along same flat
    rcases lt_or_ge u 0 with before | notBefore
    · have passed := along_mem_segment (c := c) (d := d)
        (Icc_subset_segment ⟨before.le, low⟩ : (0 : α) ∈ segment α u v)
      rw [along_zero] at passed
      exact Or.inr (Or.inl passed)
    · rcases lt_or_ge 1 u with behind | notBehind
      · have passed := along_mem_segment (c := c) (d := d)
          (Icc_subset_segment ⟨high, behind.le⟩ : (1 : α) ∈ segment α v u)
        rw [along_one, segment_symm] at passed
        exact Or.inr (Or.inr passed)
      · exact Or.inl (mem_segment_iff.mpr ⟨u, notBefore, notBehind, rfl⟩)

/-- If one segment does not pass from one side of another to the other, a common point is at an end
of one of them. -/
private theorem end_mem_segment (first : p ∈ segment α a b) (second : p ∈ segment α c d)
    (oneSide : 0 ≤ turn c d a * turn c d b) : a ∈ segment α c d ∨ b ∈ segment α c d ∨
      c ∈ segment α a b ∨ d ∈ segment α a b := by
  obtain ⟨t, low, high, reached⟩ := mem_segment_iff.mp first
  have flat := (mem_segment_iff_box.mp second).1
  rw [reached, turn_along] at flat
  have weighted : (1 - t) * turn c d a ^ 2 + t * (turn c d a * turn c d b) = 0 := by
    linear_combination turn c d a * flat
  have rest := mul_nonneg low oneSide
  have square := mul_nonneg (sub_nonneg.mpr high) (sq_nonneg (turn c d a))
  have zero : (1 - t) * turn c d a ^ 2 = 0 := by linarith
  rcases mul_eq_zero.mp zero with finished | level
  · obtain rfl : t = 1 := (sub_eq_zero.mp finished).symm
    rw [along_one] at reached
    exact Or.inr (Or.inl (reached ▸ second))
  · have shorter : segment α a p ⊆ segment α a b :=
      (convex_segment a b).segment_subset (left_mem_segment α a b) first
    rcases end_mem_segment_of_flat second (pow_eq_zero_iff two_ne_zero |>.mp level) with
      ha | hc | hd
    · exact Or.inl ha
    · exact Or.inr (Or.inr (Or.inl (shorter hc)))
    · exact Or.inr (Or.inr (Or.inr (shorter hd)))

theorem segmentsIntersect_of_mem (first : p ∈ segment α a b) (second : p ∈ segment α c d) :
    segmentsIntersect a b c d := by
  rw [segmentsIntersect_iff_turns]
  by_cases across : turn c d a * turn c d b < 0
  · by_cases across' : turn a b c * turn a b d < 0
    · exact Or.inl ⟨across, across'⟩
    · have ends := end_mem_segment second first (not_lt.mp across')
      tauto
  · exact Or.inr (end_mem_segment first second (not_lt.mp across))

/-- Two segments are found to touch exactly if they have a point in common, also where they lie on
one line and where one of them is a single point. -/
theorem segmentsIntersect_iff_nonempty (a b c d : Point α) :
    segmentsIntersect a b c d ↔ (segment α a b ∩ segment α c d).Nonempty := by
  constructor
  · intro touch
    obtain ⟨p, first, second⟩ := exists_mem_segments touch
    exact ⟨p, first, second⟩
  · rintro ⟨p, first, second⟩
    exact segmentsIntersect_of_mem first second

/-- On one line, a segment with a single point inside it, and two segments apart. -/
theorem segmentsIntersect_iff_nonempty_of_level :
    (segment ℚ (⟨0, 0⟩ : Point ℚ) ⟨2, 0⟩ ∩ segment ℚ ⟨1, 0⟩ ⟨1, 0⟩).Nonempty ∧
      ¬ (segment ℚ (⟨0, 0⟩ : Point ℚ) ⟨1, 0⟩ ∩ segment ℚ ⟨2, 0⟩ ⟨3, 0⟩).Nonempty := by
  have touch : segmentsIntersect (⟨0, 0⟩ : Point ℚ) ⟨2, 0⟩ ⟨1, 0⟩ ⟨1, 0⟩ = true := by
    decide +kernel
  have apart : ¬ segmentsIntersect (⟨0, 0⟩ : Point ℚ) ⟨1, 0⟩ ⟨2, 0⟩ ⟨3, 0⟩ = true := by
    decide +kernel
  exact ⟨(segmentsIntersect_iff_nonempty _ _ _ _).mp touch,
    mt (segmentsIntersect_iff_nonempty _ _ _ _).mpr apart⟩

end Segment

section Region

variable {α : Type} [Field α] [LinearOrder α] [IsStrictOrderedRing α]
  {first second polygon : List (Point α)} {c d p v : Point α}

omit [IsStrictOrderedRing α] in
theorem segment_subset_filled (start : c ∈ filled polygon) (stop : d ∈ filled polygon) :
    segment α c d ⊆ filled polygon :=
  (convex_convexHull α _).segment_subset start stop

omit [IsStrictOrderedRing α] in
theorem segment_side_subset_filled (side : (c, d) ∈ sides polygon) :
    segment α c d ⊆ filled polygon :=
  segment_subset_filled (mem_filled (mem_of_mem_sides side).1)
    (mem_filled (mem_of_mem_sides side).2)

theorem mem_segment_of_flat (convex : IsConvexCycle polygon) (side : (c, d) ∈ sides polygon)
    (inside : p ∈ filled polygon) (flat : turn c d p = 0) : p ∈ segment α c d := by
  obtain ⟨hc, hd⟩ := mem_of_mem_sides side
  obtain ⟨b, before⟩ := exists_side_to hc
  obtain ⟨e, after⟩ := exists_side_from hd
  have apart : c ≠ d := (ne_of_sides convex.nodup convex.enough before side).2.1
  obtain ⟨t, rfl⟩ := exists_along apart flat
  have left := (mem_filled_iff convex).mp inside
  refine mem_segment_iff.mpr ⟨t, ?_, ?_, rfl⟩
  · have bound := left _ before
    rw [turn_along, turn_right_self, mul_zero, zero_add] at bound
    exact nonneg_of_mul_nonneg_left bound (convex.bend before side)
  · have bound := left _ after
    rw [turn_along, turn_outer_self, mul_zero, add_zero, ← turn_rotate] at bound
    exact sub_nonneg.mp (nonneg_of_mul_nonneg_left bound (convex.bend side after))

/-- A way out of a convex polygon meets one of its sides. -/
theorem exists_exit (convex : IsConvexCycle polygon) (inside : p ∈ filled polygon)
    (outside : v ∉ filled polygon) :
    ∃ x ∈ segment α p v, ∃ s ∈ sides polygon, x ∈ segment α s.1 s.2 := by
  rw [mem_filled_iff convex] at inside outside
  push Not at outside
  -- Of the sides to the right of which the way ends, it meets the line of one first.
  obtain ⟨s, chosen, first⟩ := ((sides polygon).toFinset.filter
      (fun s => turn s.1 s.2 v < 0)).exists_min_image
    (fun s => turn s.1 s.2 p / (turn s.1 s.2 p - turn s.1 s.2 v)) (by
      obtain ⟨s, side, right⟩ := outside
      exact ⟨s, Finset.mem_filter.mpr ⟨List.mem_toFinset.mpr side, right⟩⟩)
  simp only [Finset.mem_filter, List.mem_toFinset] at chosen first
  obtain ⟨side, right⟩ := chosen
  have left := inside s side
  have gap : 0 < turn s.1 s.2 p - turn s.1 s.2 v := by linarith
  generalize meeting : turn s.1 s.2 p / (turn s.1 s.2 p - turn s.1 s.2 v) = t at first
  have low : 0 ≤ t := meeting ▸ div_nonneg left gap.le
  have high : t ≤ 1 := by
    rw [← meeting, div_le_one gap]
    linarith
  have flat : turn s.1 s.2 (along p v t) = 0 := by
    rw [turn_along, ← meeting]
    field_simp
    ring
  have within : along p v t ∈ filled polygon := by
    rw [mem_filled_iff convex]
    intro e side'
    have start := inside e side'
    rw [turn_along]
    rcases lt_or_ge (turn e.1 e.2 v) 0 with right' | left'
    · have later := first e ⟨side', right'⟩
      rw [le_div_iff₀ (by linarith)] at later
      linarith
    · exact add_nonneg (mul_nonneg (sub_nonneg.mpr high) start) (mul_nonneg low left')
  exact ⟨_, mem_segment_iff.mpr ⟨t, low, high, rfl⟩, s, side,
    mem_segment_of_flat convex side within flat⟩

theorem mem_filled_of_pointInPolygon (convex : IsConvexCycle polygon)
    (contained : pointInPolygon polygon p) : p ∈ filled polygon := by
  by_contra outside
  rw [mem_filled_iff convex] at outside
  push Not at outside
  obtain ⟨⟨a, b⟩, side, right⟩ := outside
  -- Seen from the point, all vertices lie beyond the line of that side.
  have beyond : ∀ q ∈ polygon, 0 < (⟨a.y - b.y, b.x - a.x⟩ : Point α).dot (q.sub p) := by
    intro q member
    have left := convex.turn_nonneg side member
    have ahead : (⟨a.y - b.y, b.x - a.x⟩ : Point α).dot (q.sub p) = turn a b q - turn a b p := by
      simp only [Point.dot, Point.sub, turn]
      ring
    rw [ahead]
    linarith
  have enough := convex.enough
  rw [pointInPolygon_eq enough] at contained
  cases polygon with
  | nil => simp at enough
  | cons x rest =>
    have around : ∀ q ∈ x :: rest ++ [x],
        0 < (⟨a.y - b.y, b.x - a.x⟩ : Point α).dot (q.sub p) := by
      intro q member
      apply beyond
      rcases List.mem_append.mp member with listed | last
      · exact listed
      · rw [List.mem_singleton.mp last]
        exact List.mem_cons_self
    rw [sides_eq_links, oddCrossings_links around] at contained
    simp [rayCrosses] at contained

omit [IsStrictOrderedRing α] in
private theorem hullsIntersect_eq_true_iff (enough : 3 ≤ first.length)
    (enough' : 3 ≤ second.length) :
    hullsIntersect first second ↔
      (∃ s ∈ sides first, ∃ t ∈ sides second, segmentsIntersect s.1 s.2 t.1 t.2) ∨
        (∃ p ∈ first, pointInPolygon second p) ∨ ∃ p ∈ second, pointInPolygon first p := by
  have long : ¬ (first.length < 3 ∨ second.length < 3) := by omega
  simp only [hullsIntersect, if_neg long, Bool.or_eq_true, List.any_eq_true, or_assoc]

section Convex

variable (convex : IsConvexCycle first) (convex' : IsConvexCycle second)

include convex convex'

private theorem hullsIntersect_of_sides {s t : Point α × Point α} (side : s ∈ sides first)
    (side' : t ∈ sides second) (here : p ∈ segment α s.1 s.2) (there : p ∈ segment α t.1 t.2) :
    hullsIntersect first second := by
  rw [hullsIntersect_eq_true_iff convex.enough convex'.enough]
  exact Or.inl ⟨s, side, t, side', segmentsIntersect_of_mem here there⟩

private theorem hullsIntersect_of_vertex (vertex : v ∈ first) (inside : v ∈ filled second) :
    hullsIntersect first second := by
  by_cases within : ∀ t ∈ sides second, 0 < turn t.1 t.2 v
  · rw [hullsIntersect_eq_true_iff convex.enough convex'.enough]
    exact Or.inr (Or.inl ⟨v, vertex, pointInPolygon_of_left convex' within⟩)
  · push Not at within
    obtain ⟨t, side', right⟩ := within
    have left := (mem_filled_iff convex').mp inside t side'
    obtain ⟨w, side⟩ := exists_side_from vertex
    exact hullsIntersect_of_sides convex convex' side side' (left_mem_segment α v w)
      (mem_segment_of_flat convex' side' inside (le_antisymm right left))

private theorem nonempty_of_hullsIntersect (overlapping : hullsIntersect first second) :
    (filled first ∩ filled second).Nonempty := by
  rw [hullsIntersect_eq_true_iff convex.enough convex'.enough] at overlapping
  rcases overlapping with ⟨s, side, t, side', touch⟩ | ⟨v, vertex, contained⟩ |
    ⟨v, vertex, contained⟩
  · obtain ⟨p, here, there⟩ := exists_mem_segments touch
    exact ⟨p, segment_side_subset_filled side here, segment_side_subset_filled side' there⟩
  · exact ⟨v, mem_filled vertex, mem_filled_of_pointInPolygon convex' contained⟩
  · exact ⟨v, mem_filled_of_pointInPolygon convex contained, mem_filled vertex⟩

/-- From a common point one way leads out of the second polygon, and from where it leaves that,
along the side there, another one leads out of the first. -/
theorem hullsIntersect_of_mem (here : p ∈ filled first) (there : p ∈ filled second) :
    hullsIntersect first second := by
  have enough := convex.enough
  obtain ⟨v, vertex⟩ : ∃ v, v ∈ first := List.exists_mem_of_length_pos (by omega)
  by_cases inside : v ∈ filled second
  · exact hullsIntersect_of_vertex convex convex' vertex inside
  · obtain ⟨x, onWay, ⟨c, d⟩, side', onSide⟩ := exists_exit convex' there inside
    have still : x ∈ filled first := segment_subset_filled here (mem_filled vertex) onWay
    have corner : c ∈ second := (mem_of_mem_sides side').1
    by_cases inside' : c ∈ filled first
    · rw [hullsIntersect_comm]
      exact hullsIntersect_of_vertex convex' convex corner inside'
    · obtain ⟨y, onWay', s, side, onSide'⟩ := exists_exit convex still inside'
      have along : y ∈ segment α c d :=
        (convex_segment c d).segment_subset onSide (left_mem_segment α c d) onWay'
      exact hullsIntersect_of_sides convex convex' side side' onSide' along

/-- Convex polygons overlap exactly if their regions have a point in common, whichever of them comes
first. -/
theorem hullsIntersect_iff_nonempty :
    (hullsIntersect first second ↔ (filled first ∩ filled second).Nonempty) ∧
      hullsIntersect first second = hullsIntersect second first := by
  refine ⟨⟨nonempty_of_hullsIntersect convex convex', ?_⟩, hullsIntersect_comm first second⟩
  rintro ⟨p, here, there⟩
  exact hullsIntersect_of_mem convex convex' here there

end Convex

def unitSquare (corner : ℚ) : List (Point ℚ) :=
  [⟨corner, corner⟩, ⟨corner + 1, corner⟩, ⟨corner + 1, corner + 1⟩, ⟨corner, corner + 1⟩]

theorem hullsIntersect_iff_nonempty_of_corner :
    IsConvexCycle (unitSquare 0) ∧ IsConvexCycle (unitSquare 1) ∧
      hullsIntersect (unitSquare 0) (unitSquare 1) = true ∧
      (filled (unitSquare 0) ∩ filled (unitSquare 1)).Nonempty ∧
      hullsIntersect (unitSquare 1) (unitSquare 0) = true := by
  have convex : IsConvexCycle (unitSquare 0) := ⟨by decide +kernel, by decide +kernel⟩
  have convex' : IsConvexCycle (unitSquare 1) := ⟨by decide +kernel, by decide +kernel⟩
  have overlapping : hullsIntersect (unitSquare 0) (unitSquare 1) = true := by decide +kernel
  obtain ⟨common, comm⟩ := hullsIntersect_iff_nonempty convex convex'
  exact ⟨convex, convex', overlapping, common.mp overlapping, comm ▸ overlapping⟩

end Region

end CapabilityAtlas.Geometry
