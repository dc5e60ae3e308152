import CapabilityAtlas.Proofs.Geometry.Outline
import CapabilityAtlas.Proofs.Geometry.Overlap

set_option autoImplicit false
set_option relaxedAutoImplicit false

/-!
The sides of a convex polygon that has moved outward, in their order. Every side moves along its
normal and reaches at least as far as before at both ends. Where it meets the moved side before it
within the limit, the two share that point, and elsewhere a bevel leads from one to the other.
-/

namespace CapabilityAtlas.Geometry

/-- A unit vector at a right angle to a side, to the right of it. -/
structure IsOutwardNormal (s : Point ℝ × Point ℝ) (n : Point ℝ) : Prop where
  unit : n.dot n = 1
  across : n.dot (s.2.sub s.1) = 0
  outward : turn s.1 s.2 (s.1.add n) < 0

/-- Whether a side is another one that has moved outward and may have grown at its ends. -/
structure IsMovedOut (d : ℝ) (s t : Point ℝ × Point ℝ) : Prop where
  covers : ∃ n, IsOutwardNormal s n ∧ s.1.add (n.scale d) ∈ segment ℝ t.1 t.2 ∧
    s.2.add (n.scale d) ∈ segment ℝ t.1 t.2
  direction : ∃ r > 0, t.2.sub t.1 = (s.2.sub s.1).scale r
  longer : (s.2.sub s.1).length ≤ (t.2.sub t.1).length

/-- Whether the lines of both sides at a corner meet in a point when they have moved outward. -/
structure IsMiter (d : ℝ) (c : Corner) (m : Point ℝ) : Prop where
  before : ∃ n, IsOutwardNormal (c.1, c.vertex) n ∧ n.dot (m.sub c.vertex) = d
  after : ∃ n, IsOutwardNormal c.2 n ∧ n.dot (m.sub c.vertex) = d

/-- Whether the moved lines at a corner meet only beyond the limit, or not at all. -/
def LacksMiter (d : ℝ) (c : Corner) : Prop :=
  ∀ m, IsMiter d c m → miterLimit * d < (m.sub c.vertex).length

/-- What the side after a corner becomes, with a bevel before it if the corner lacks a miter. -/
inductive Replaces (d : ℝ) (c : Corner) : List (Point ℝ × Point ℝ) → Prop
  | miter {t : Point ℝ × Point ℝ} :
      ¬ LacksMiter d c → IsMiter d c t.1 → IsMovedOut d c.2 t → Replaces d c [t]
  | bevel {t : Point ℝ × Point ℝ} {n n' : Point ℝ} :
      LacksMiter d c → IsOutwardNormal (c.1, c.vertex) n → IsOutwardNormal c.2 n' →
      IsMovedOut d c.2 t →
      Replaces d c [(c.vertex.add (n.scale d), c.vertex.add (n'.scale d)), t]

variable {polygon : List (Point ℝ)} {c e : Corner} {d : ℝ}

section Sides

variable {a b n m : Point ℝ} {s t : Point ℝ × Point ℝ}

private theorem isOutwardNormal_normal (apart : a ≠ b) :
    IsOutwardNormal (a, b) (normal (b.sub a)) := by
  have long := sideLength_pos apart
  have unit := normal_dot_normal apart
  refine ⟨unit, ?_, ?_⟩
  · rw [normal_dot_sub, turn_outer_self, turn_right_self, sub_zero, zero_div]
  · have step : (a.add (normal (b.sub a))).sub a = normal (b.sub a) := by
      ext <;> simp [Point.add, Point.sub]
    have level := normal_dot_sub a b a (a.add (normal (b.sub a)))
    rw [step, unit, turn_outer_self, zero_sub, eq_div_iff long.ne'] at level
    linarith

namespace IsOutwardNormal

private theorem exists_length (normal : IsOutwardNormal s n) :
    ∃ long > 0, s.2.sub s.1 = ⟨-(long * n.y), long * n.x⟩ ∧
      (s.2.sub s.1).dot (s.2.sub s.1) = long * long := by
  obtain ⟨unit, across, outward⟩ := normal
  simp only [Point.dot, Point.sub, turn, Point.add] at unit across outward ⊢
  refine ⟨(s.2.y - s.1.y) * n.x - (s.2.x - s.1.x) * n.y, by linarith, ?_, ?_⟩
  · rw [Point.mk.injEq]
    constructor
    · linear_combination n.x * across - (s.2.x - s.1.x) * unit
    · linear_combination n.y * across - (s.2.y - s.1.y) * unit
  · linear_combination ((s.2.x - s.1.x) * n.x + (s.2.y - s.1.y) * n.y) * across -
      ((s.2.x - s.1.x) ^ 2 + (s.2.y - s.1.y) ^ 2) * unit

private theorem unique (first : IsOutwardNormal s n) (second : IsOutwardNormal s m) : n = m := by
  obtain ⟨long, extent, way, square⟩ := first.exists_length
  obtain ⟨long', extent', way', square'⟩ := second.exists_length
  obtain rfl : long = long' :=
    (mul_self_inj_of_nonneg extent.le extent'.le).mp (square.symm.trans square')
  obtain ⟨first, second⟩ := Point.mk.inj (way.symm.trans way')
  ext
  · exact mul_left_cancel₀ extent.ne' second
  · exact mul_left_cancel₀ extent.ne' (neg_inj.mp first)

end IsOutwardNormal

private theorem isMovedOut_of_slack (normal : IsOutwardNormal s n) {before after : ℝ}
    (start : before ≤ 0) (stop : 1 ≤ after)
    (first : t.1 = along (s.1.add (n.scale d)) (s.2.add (n.scale d)) before)
    (second : t.2 = along (s.1.add (n.scale d)) (s.2.add (n.scale d)) after) :
    IsMovedOut d s t := by
  have whole : 0 < after - before := by linarith
  have way : t.2.sub t.1 = (s.2.sub s.1).scale (after - before) := by
    rw [first, second]
    ext
    · simp only [along, Point.add, Point.sub, Point.scale]
      ring
    · simp only [along, Point.add, Point.sub, Point.scale]
      ring
  have covered : ∀ r, 0 ≤ r → r ≤ 1 →
      along (s.1.add (n.scale d)) (s.2.add (n.scale d)) r ∈ segment ℝ t.1 t.2 := by
    intro r low high
    rw [first, second]
    exact along_mem_segment (Icc_subset_segment ⟨start.trans low, high.trans stop⟩)
  refine ⟨⟨n, normal, ?_, ?_⟩, ⟨after - before, whole, way⟩, ?_⟩
  · simpa [along] using covered 0 le_rfl zero_le_one
  · simpa [along] using covered 1 zero_le_one le_rfl
  · rw [way, Point.length_scale whole.le]
    exact le_mul_of_one_le_left (Point.length_nonneg _) (by linarith)

private theorem along_add_scale {o : Point ℝ} {long : ℝ} (unit : n.dot n = 1) (touch : n.dot o = 1)
    (extent : long ≠ 0) (way : b.sub a = ⟨-(long * n.y), long * n.x⟩) (r : ℝ) :
    (along a b r).add (o.scale d) =
      along (a.add (n.scale d)) (b.add (n.scale d)) (r + d * n.cross o / long) := by
  obtain ⟨right, up⟩ := Point.mk.inj way
  have right' : b.x + d * n.x - (a.x + d * n.x) = -(long * n.y) := by linarith
  have up' : b.y + d * n.y - (a.y + d * n.y) = long * n.x := by linarith
  simp only [Point.dot] at unit touch
  ext
  · simp only [along, Point.add, Point.scale, Point.cross, right, right']
    field_simp
    linear_combination d * n.x * touch - d * o.x * unit
  · simp only [along, Point.add, Point.scale, Point.cross, up, up']
    field_simp
    linear_combination d * n.y * touch - d * o.y * unit

end Sides

section Corners

variable (convex : IsConvexCycle polygon) (here : c ∈ corners polygon)

include convex here

private theorem isOutwardNormal_before : IsOutwardNormal (c.1, c.vertex) c.before := by
  obtain ⟨before, after⟩ := sides_of_mem_corners here
  exact isOutwardNormal_normal (ne_of_sides convex.nodup convex.enough before after).1

private theorem isOutwardNormal_after : IsOutwardNormal c.2 c.after := by
  obtain ⟨before, after⟩ := sides_of_mem_corners here
  exact isOutwardNormal_normal (ne_of_sides convex.nodup convex.enough before after).2.1

private theorem isMiter_iff {m : Point ℝ} :
    IsMiter d c m ↔ m = c.vertex.add ((meeting c.before c.after).scale d) := by
  have bend := isBend_of_mem_corners convex here
  have normal := isOutwardNormal_before convex here
  have normal' := isOutwardNormal_after convex here
  have reach : ∀ n : Point ℝ, n.dot (meeting c.before c.after) = 1 →
      n.dot ((c.vertex.add ((meeting c.before c.after).scale d)).sub c.vertex) = d := by
    intro n touch
    rw [dot_moved_sub, touch, mul_one, add_eq_right]
    simp [Point.dot, Point.sub]
  constructor
  · rintro ⟨⟨n, first, level⟩, ⟨n', second, level'⟩⟩
    obtain rfl := first.unique normal
    obtain rfl := second.unique normal'
    have same := level.trans (reach _ bend.left_dot_meeting).symm
    have same' := level'.trans (reach _ bend.right_dot_meeting).symm
    have opens := bend.left
    generalize c.vertex.add ((meeting c.before c.after).scale d) = k at same same'
    simp only [Point.dot, Point.sub, Point.cross] at same same' opens
    ext
    · refine sub_eq_zero.mp ((mul_eq_zero.mp ?_).resolve_left opens.ne')
      linear_combination c.after.y * same - c.before.y * same'
    · refine sub_eq_zero.mp ((mul_eq_zero.mp ?_).resolve_left opens.ne')
      linear_combination c.before.x * same' - c.after.x * same
  · rintro rfl
    exact ⟨⟨_, normal, reach _ bend.left_dot_meeting⟩, ⟨_, normal', reach _ bend.right_dot_meeting⟩⟩

private theorem lacksMiter_iff (positive : 0 < d) : LacksMiter d c ↔ c.IsSharp := by
  have bend := isBend_of_mem_corners convex here
  have far : (c.vertex.add ((meeting c.before c.after).scale d)).sub c.vertex =
      (meeting c.before c.after).scale d := by
    ext <;> simp [Point.add, Point.sub]
  simp only [LacksMiter, isMiter_iff convex here, forall_eq, far, Point.length_scale positive.le]
  rw [mul_comm, mul_lt_mul_iff_right₀ positive]
  exact miterLimit_lt_length_iff bend

end Corners

section Steps

variable (convex : IsConvexCycle polygon) (positive : 0 < d)

include convex positive

private theorem isMovedOut_of_step (step : (c, e) ∈ sides (corners polygon)) :
    IsMovedOut d c.2 (c.leave d, e.enter d) := by
  have here := (mem_of_mem_sides step).1
  have bend := isBend_of_mem_corners convex here
  have normal := isOutwardNormal_after convex here
  obtain ⟨long, extent, way, -⟩ := normal.exists_length
  have moved := fun {o : Point ℝ} (touch : c.after.dot o = 1) =>
    along_add_scale (d := d) normal.unit touch extent.ne' way
  obtain ⟨touch, ahead⟩ := after_dot_next_first convex step
  have behind := mul_nonpos_of_nonneg_of_nonpos positive.le (Corner.cross_last_nonpos bend)
  have back : 0 + d * c.after.cross c.last / long ≤ 0 := by
    rw [zero_add]
    exact div_nonpos_of_nonpos_of_nonneg behind extent.le
  have onward : 1 ≤ 1 + d * c.after.cross e.first / long :=
    le_add_of_nonneg_right (div_nonneg (mul_nonneg positive.le ahead) extent.le)
  refine isMovedOut_of_slack normal back onward ?_ ?_
  · rw [← moved (Corner.after_dot_last bend)]
    simp [Corner.leave, Corner.vertex, along]
  · have vertex : e.vertex = c.2.2 := (shared_side step).2
    rw [← moved touch, Corner.enter, vertex]
    simp [along]

/-- The sides from the end of the side before a corner to the end of the side after it. -/
noncomputable def Corner.run (d : ℝ) (step : Corner × Corner) : List (Point ℝ × Point ℝ) :=
  links (Corner.enter d step.1 :: Corner.others d step.1 ++ [Corner.enter d step.2])

theorem replaces_of_step (step : (c, e) ∈ sides (corners polygon)) :
    Replaces d c (Corner.run d (c, e)) := by
  have here := (mem_of_mem_sides step).1
  have moved := isMovedOut_of_step convex positive step
  unfold Corner.run Corner.others
  dsimp only
  split
  · rename_i sharp
    change Replaces d c [(c.enter d, c.leave d), (c.leave d, e.enter d)]
    rw [Corner.leave_of_isSharp sharp] at moved ⊢
    rw [Corner.enter_of_isSharp sharp]
    exact .bevel ((lacksMiter_iff convex here positive).mpr sharp)
      (isOutwardNormal_before convex here) (isOutwardNormal_after convex here) moved
  · rename_i blunt
    have meets : IsMiter d c (c.enter d) :=
      (isMiter_iff convex here).mpr (Corner.enter_of_not_isSharp blunt)
    rw [Corner.leave_eq_enter blunt] at moved
    exact .miter ((lacksMiter_iff convex here positive).not.mpr blunt) meets moved

/-- A convex polygon that moves outward stays convex. In their order, its sides are those from
before, each moved by the given distance, in its direction and at least as long, and a bevel before
each of them that starts at a corner which lacks a miter. -/
theorem expandHull_sides :
    IsConvexCycle (expandHull d polygon) ∧
      ∃ runs, List.Forall₂ (Replaces d) (corners polygon) runs ∧
        sides (expandHull d polygon) = runs.flatten := by
  refine ⟨isConvexCycle_expandHull convex positive, (sides (corners polygon)).map (Corner.run d),
    ?_, ?_⟩
  · have each : List.Forall₂ (Replaces d) ((sides (corners polygon)).map Prod.fst)
        ((sides (corners polygon)).map (Corner.run d)) := by
      rw [List.forall₂_map_left_iff, List.forall₂_map_right_iff, List.forall₂_same]
      exact fun s step => replaces_of_step convex positive step
    rwa [map_fst_sides] at each
  · rw [expandHull_eq convex positive, sides_flatMap, List.flatMap_def]
    rfl

end Steps

theorem expandHull_sides_of_needle : IsConvexCycle needle ∧ (0 : ℝ) < 41 ∧
    LacksMiter 41 needleTip ∧ IsConvexCycle (expandHull 41 needle) ∧
    ∃ runs, List.Forall₂ (Replaces 41) (corners needle) runs ∧
      sides (expandHull 41 needle) = runs.flatten := by
  have convex : IsConvexCycle needle := isConvexCycle_triangle turn_needle
  have positive : (0 : ℝ) < 41 := by norm_num
  have tip : needleTip ∈ corners needle := List.mem_cons_self
  exact ⟨convex, positive, (lacksMiter_iff convex tip positive).mpr isSharp_needleTip,
    expandHull_sides convex positive⟩

end CapabilityAtlas.Geometry
