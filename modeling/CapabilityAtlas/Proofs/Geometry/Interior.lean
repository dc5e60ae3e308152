import CapabilityAtlas.Proofs.Geometry.Overlap

set_option autoImplicit false
set_option relaxedAutoImplicit false

/-!
Which points a polygon contains. A ray crosses a side whichever way that leads, so it does not
matter which way a polygon goes around, and only sides that are not level are ever divided by. Off
its boundary, a convex polygon contains the points from which its region goes on in every direction.
-/

namespace CapabilityAtlas

/-- The points from which a region goes some way on in every direction. -/
def Plane.inner {α : Type} [Field α] [LinearOrder α] (region : Set (Geometry.Point α)) :
    Set (Geometry.Point α) :=
  {p | ∀ q, ∃ far > 0, ∀ t, 0 ≤ t → t ≤ far → Geometry.along p q t ∈ region}

namespace Geometry

open Plane (filled inner)

section Quotient

variable {α : Type} [Field α] [LinearOrder α] {a b p : Point α}

def quotient? (v w : α) : Option α := if w = 0 then none else some (v / w)

/-- Whether a ray crosses a side, with no answer if that takes a quotient that does not exist. -/
def rayCrosses? (p a b : Point α) : Option Bool :=
  if decide (p.y < b.y) != decide (p.y < a.y) then
    (quotient? ((a.x - b.x) * (p.y - b.y)) (a.y - b.y)).map (fun way => p.x < way + b.x)
  else some false

/-- Whether a point is inside a polygon, with no answer if that takes a quotient that does not
exist. -/
def pointInPolygon? (polygon : List (Point α)) (p : Point α) : Option Bool :=
  if polygon.length < 3 then some false
  else ((predecessors polygon).zip polygon).foldlM
    (fun inside side => (rayCrosses? p side.1 side.2).map (inside != ·)) false

private theorem sub_ne_zero_of_levels (apart : decide (p.y < b.y) ≠ decide (p.y < a.y)) :
    a.y - b.y ≠ 0 := by
  intro same
  exact apart (by rw [sub_eq_zero.mp same])

theorem rayCrosses?_eq (p a b : Point α) : rayCrosses? p a b = some (rayCrosses p a b) := by
  unfold rayCrosses? rayCrosses
  split
  · rename_i apart
    have divisor := sub_ne_zero_of_levels (bne_iff_ne.mp apart)
    rw [quotient?, if_neg divisor, apart, Option.map_some, Bool.true_and]
  · rename_i level
    rw [Bool.not_eq_true] at level
    rw [level, Bool.false_and]

private theorem pointInPolygon?_eq (polygon : List (Point α)) (p : Point α) :
    pointInPolygon? polygon p = some (pointInPolygon polygon p) := by
  unfold pointInPolygon? pointInPolygon
  split
  · rfl
  · simp only [rayCrosses?_eq, Option.map_some]
    exact List.foldlM_pure ..

end Quotient

section Reverse

variable {α : Type} [Field α] [LinearOrder α]

private theorem rayCrosses_comm (p a b : Point α) : rayCrosses p a b = rayCrosses p b a := by
  by_cases level : decide (p.y < b.y) = decide (p.y < a.y)
  · simp [rayCrosses, level]
  · have apart := sub_ne_zero_of_levels level
    have apart' : b.y - a.y ≠ 0 := sub_ne_zero_of_levels (Ne.symm level)
    have meeting : (a.x - b.x) * (p.y - b.y) / (a.y - b.y) + b.x =
        (b.x - a.x) * (p.y - a.y) / (b.y - a.y) + a.x := by
      field_simp
      ring
    rw [rayCrosses, rayCrosses, meeting, bne_comm]

private theorem oddCrossings_map_swap (p : Point α) (segments : List (Point α × Point α)) :
    oddCrossings p (segments.map Prod.swap) = oddCrossings p segments := by
  induction segments with
  | nil => rfl
  | cons s rest ih =>
    rw [List.map_cons, oddCrossings_cons, oddCrossings_cons, ih, Prod.fst_swap, Prod.snd_swap,
      rayCrosses_comm]

/-- Whether a point is inside a polygon does not depend on which way that goes around. -/
theorem pointInPolygon_reverse (polygon : List (Point α)) (p : Point α) :
    pointInPolygon polygon.reverse p = pointInPolygon polygon p := by
  by_cases enough : 3 ≤ polygon.length
  · have enough' : 3 ≤ polygon.reverse.length := by rwa [List.length_reverse]
    rw [pointInPolygon_eq enough, pointInPolygon_eq enough',
      oddCrossings_perm (perm_sides_reverse polygon), oddCrossings_map_swap]
  · have few : polygon.length < 3 := not_le.mp enough
    rw [pointInPolygon, pointInPolygon, List.length_reverse, if_pos few, if_pos few]

private theorem filled_reverse (polygon : List (Point α)) :
    filled polygon.reverse = filled polygon := by
  simp only [filled, List.mem_reverse]

end Reverse

section Inner

variable {α : Type} [Field α] [LinearOrder α] [IsStrictOrderedRing α] {polygon : List (Point α)}
  {p : Point α}

private theorem mem_inner_filled_iff (convex : IsConvexCycle polygon) :
    p ∈ inner (filled polygon) ↔ ∀ s ∈ sides polygon, 0 < turn s.1 s.2 p := by
  constructor
  · rintro inside ⟨a, b⟩ side
    obtain ⟨w, member, start, stop⟩ := exists_mem_ne_ne convex.nodup convex.enough a b
    have bend := convex.turn_pos side member start stop
    -- A little further, away from another vertex, the region is still not to the right of the side.
    obtain ⟨far, ahead, stays⟩ := inside (along w p 2)
    have left := (mem_filled_iff convex).mp (stays far ahead.le (le_refl far)) _ side
    simp only [turn_along] at left
    have margin := mul_pos ahead bend
    have reach : 0 < (1 + far) * turn a b p := by linarith
    exact (pos_iff_pos_of_mul_pos reach).mp (by linarith)
  · intro left q
    have here : p ∈ filled polygon := (mem_filled_iff convex).mpr fun s side => (left s side).le
    by_cases inside : q ∈ filled polygon
    · exact ⟨1, one_pos, fun t low high => along_mem_filled here inside low high⟩
    · obtain ⟨x, onWay, s, side, onSide⟩ := exists_exit convex here inside
      have still : x ∈ filled polygon := segment_side_subset_filled side onSide
      obtain ⟨far, low, -, rfl⟩ := mem_segment_iff.mp onWay
      have start : along p q 0 = p := by simp [along]
      refine ⟨far, low.lt_of_ne ?_, fun t low' high' => ?_⟩
      · rintro rfl
        rw [start] at onSide
        exact (left s side).ne' (mem_segment_iff_box.mp onSide).1
      · have passed := along_mem_segment (c := p) (d := q) (Icc_subset_segment ⟨low', high'⟩)
        rw [start] at passed
        exact segment_subset_filled here still passed

private theorem pointInPolygon_iff_of_off (convex : IsConvexCycle polygon)
    (off : ∀ s ∈ sides polygon, p ∉ segment α s.1 s.2) :
    pointInPolygon polygon p = true ↔ p ∈ inner (filled polygon) := by
  rw [mem_inner_filled_iff convex]
  constructor
  · intro contained s side
    have inside := mem_filled_of_pointInPolygon convex contained
    have left := (mem_filled_iff convex).mp inside s side
    exact left.lt_of_ne fun flat => off s side (mem_segment_of_flat convex side inside flat.symm)
  · exact pointInPolygon_of_left convex

/-- Off its boundary, a convex polygon contains exactly the inner points of its region, whichever
way it goes around, and no division by zero is made to find that out. -/
theorem pointInPolygon_iff_inner
    (convex : IsConvexCycle polygon ∨ IsConvexCycle polygon.reverse)
    (off : ∀ s ∈ sides polygon, p ∉ segment α s.1 s.2) :
    pointInPolygon? polygon p = some (pointInPolygon polygon p) ∧
      (pointInPolygon polygon p = true ↔ p ∈ inner (filled polygon)) := by
  refine ⟨pointInPolygon?_eq polygon p, ?_⟩
  rcases convex with left | right
  · exact pointInPolygon_iff_of_off left off
  · rw [← pointInPolygon_reverse, ← filled_reverse]
    refine pointInPolygon_iff_of_off right fun s side => ?_
    obtain ⟨t, side', rfl⟩ := List.mem_map.mp ((perm_sides_reverse polygon).mem_iff.mp side)
    rw [Prod.fst_swap, Prod.snd_swap, segment_symm]
    exact off t side'

def diamond : List (Point ℚ) := [⟨-1, 0⟩, ⟨0, 1⟩, ⟨1, 0⟩, ⟨0, -1⟩]

/-- Two points at the height of two corners, one between them and one before both. -/
theorem pointInPolygon_iff_inner_of_level : IsConvexCycle diamond.reverse ∧
    (∀ s ∈ sides diamond, (⟨1 / 2, 0⟩ : Point ℚ) ∉ segment ℚ s.1 s.2) ∧
    (∀ s ∈ sides diamond, (⟨-2, 0⟩ : Point ℚ) ∉ segment ℚ s.1 s.2) ∧
    (⟨1 / 2, 0⟩ : Point ℚ) ∈ inner (filled diamond) ∧
    (⟨-2, 0⟩ : Point ℚ) ∉ inner (filled diamond) := by
  have convex : IsConvexCycle diamond.reverse := ⟨by decide +kernel, by decide +kernel⟩
  have off : ∀ s ∈ sides diamond, (⟨1 / 2, 0⟩ : Point ℚ) ∉ segment ℚ s.1 s.2 := by
    simp only [mem_segment_iff_box]
    decide +kernel
  have off' : ∀ s ∈ sides diamond, (⟨-2, 0⟩ : Point ℚ) ∉ segment ℚ s.1 s.2 := by
    simp only [mem_segment_iff_box]
    decide +kernel
  have contained : pointInPolygon diamond ⟨1 / 2, 0⟩ = true := by decide +kernel
  have missed : ¬ pointInPolygon diamond ⟨-2, 0⟩ = true := by decide +kernel
  exact ⟨convex, off, off', (pointInPolygon_iff_inner (Or.inr convex) off).2.mp contained,
    mt (pointInPolygon_iff_inner (Or.inr convex) off').2.mpr missed⟩

end Inner

end Geometry

end CapabilityAtlas
