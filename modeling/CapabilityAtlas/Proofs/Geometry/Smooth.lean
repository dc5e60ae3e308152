import CapabilityAtlas.Geometry.Hull
import CapabilityAtlas.Proofs.Geometry.Crossing

set_option autoImplicit false
set_option relaxedAutoImplicit false

/-!
Smoothing does not lose points. The spline between two vertices of a convex polygon stays on the
outer side of the line through them, and so a ray from inside the polygon meets it as often as the
side, up to an even number.
-/

namespace CapabilityAtlas.Geometry

variable {α : Type}

section Controls

variable (polygon : List (Point α))

private theorem map_snd_controls : (controls polygon).map Prod.snd =
    polygon.zip ((successors polygon).zip (successors (successors polygon))) :=
  List.map_snd_zip (by simp)

private theorem map_start_controls : (controls polygon).map (fun i => i.2.1) = polygon := by
  calc (controls polygon).map (fun i => i.2.1)
      = ((controls polygon).map Prod.snd).map Prod.fst := by
        rw [List.map_map]
        rfl
    _ = polygon := by
        rw [map_snd_controls]
        exact List.map_fst_zip (by simp)

private theorem map_stop_controls :
    (controls polygon).map (fun i => i.2.2.1) = successors polygon := by
  calc (controls polygon).map (fun i => i.2.2.1)
      = (((controls polygon).map Prod.snd).map Prod.snd).map Prod.fst := by
        rw [List.map_map, List.map_map]
        rfl
    _ = ((successors polygon).zip (successors (successors polygon))).map Prod.fst := by
        rw [map_snd_controls]
        exact congrArg (List.map Prod.fst) (List.map_snd_zip (by simp))
    _ = successors polygon := List.map_fst_zip (by simp)

variable {polygon}

private theorem of_mem_controls {i : Point α × Point α × Point α × Point α}
    (member : i ∈ controls polygon) :
    i.1 ∈ polygon ∧ (i.2.1, i.2.2.1) ∈ sides polygon ∧ i.2.2.2 ∈ polygon := by
  have outer := List.of_mem_zip member
  have inner := List.of_mem_zip (List.of_mem_zip outer.2).2
  refine ⟨(perm_predecessors polygon).mem_iff.mp outer.1, ?_,
    (perm_successors polygon).mem_iff.mp ((perm_successors _).mem_iff.mp inner.2)⟩
  have pairs : (controls polygon).map (fun i => (i.2.1, i.2.2.1)) = sides polygon := by
    rw [sides, ← List.zip_map']
    rw [map_start_controls, map_stop_controls]
  rw [← pairs]
  exact List.mem_map_of_mem member

private theorem next_control {s : (Point α × Point α × Point α × Point α) ×
    (Point α × Point α × Point α × Point α)} (step : s ∈ sides (controls polygon)) :
    s.2.2.1 = s.1.2.2.1 := by
  have starts : (sides (controls polygon)).map (fun s => s.2.2.1) = successors polygon := by
    have ends := congrArg (List.map fun i => i.2.1) (map_snd_sides (controls polygon))
    rw [List.map_map, ← successors_map, map_start_controls] at ends
    exact ends
  have stops : (sides (controls polygon)).map (fun s => s.1.2.2.1) = successors polygon := by
    have starts := congrArg (List.map fun i => i.2.2.1) (map_fst_sides (controls polygon))
    rw [List.map_map, map_stop_controls] at starts
    exact starts
  exact List.map_inj_left.mp (starts.trans stops.symm) s step

end Controls

variable [Field α]

/-- The way from one point to another, turned to the right by a quarter turn. -/
def outward (a b : Point α) : Point α := ⟨b.y - a.y, -(b.x - a.x)⟩

private theorem outward_dot_sub (a b p q : Point α) :
    (outward a b).dot (q.sub p) = turn a b p - turn a b q := by
  simp only [outward, Point.dot, Point.sub, turn]
  ring

variable [LinearOrder α] [IsStrictOrderedRing α] {polygon : List (Point α)} {p : Point α}

section Spline

variable {p0 p1 p2 p3 q : Point α} {samples : Nat}

private theorem splinePoint_zero : splinePoint p0 p1 p2 p3 0 = p1 := by
  ext
  · simp only [splinePoint, splineValue, Scalar.ratio]
    push_cast
    ring
  · simp only [splinePoint, splineValue, Scalar.ratio]
    push_cast
    ring

private theorem turn_splinePoint (t : α) :
    turn p1 p2 (splinePoint p0 p1 p2 p3 t) =
      -((t * (1 - t) ^ 2 * turn p1 p2 p0 + t ^ 2 * (1 - t) * turn p1 p2 p3) / 2) := by
  simp only [turn, splinePoint, splineValue, Scalar.ratio]
  push_cast
  ring

private theorem splineArc_eq (positive : 0 < samples) :
    splineArc samples p0 p1 p2 p3 = p1 :: (splineArc samples p0 p1 p2 p3).tail := by
  obtain ⟨n, rfl⟩ := Nat.exists_eq_succ_of_ne_zero positive.ne'
  rw [splineArc, List.range_succ_eq_map, List.map_cons, List.tail_cons]
  congr 1
  rw [Nat.cast_zero, zero_mul, splinePoint_zero]

private theorem turn_nonpos_of_mem_splineArc (before : 0 ≤ turn p1 p2 p0)
    (after : 0 ≤ turn p1 p2 p3)
    (member : q ∈ splineArc samples p0 p1 p2 p3) : turn p1 p2 q ≤ 0 := by
  obtain ⟨i, below, rfl⟩ := List.mem_map.mp member
  have count : (i : α) < samples := Nat.cast_lt.mpr (List.mem_range.mp below)
  have start : (0 : α) ≤ i := Nat.cast_nonneg i
  have low : 0 ≤ (i : α) * Scalar.ratio 1 samples :=
    mul_nonneg start (div_nonneg (Nat.cast_nonneg 1) (Nat.cast_nonneg samples))
  have high : (i : α) * Scalar.ratio 1 samples ≤ 1 := by
    rw [Scalar.ratio, Nat.cast_one, mul_one_div]
    exact div_le_one_of_le₀ count.le (start.trans count.le)
  rw [turn_splinePoint]
  generalize (i : α) * Scalar.ratio 1 samples = t at low high
  have first : 0 ≤ t * (1 - t) ^ 2 * turn p1 p2 p0 :=
    mul_nonneg (mul_nonneg low (sq_nonneg _)) before
  have second : 0 ≤ t ^ 2 * (1 - t) * turn p1 p2 p3 :=
    mul_nonneg (mul_nonneg (sq_nonneg t) (sub_nonneg.mpr high)) after
  linarith

end Spline

section Smoothed

variable (convex : IsConvexCycle polygon) (inside : ∀ s ∈ sides polygon, 0 < turn s.1 s.2 p)

include convex inside

/-- A ray from inside meets the spline of a side as often as the side, up to an even number. -/
theorem oddCrossings_spline (samples : Nat) {i : Point α × Point α × Point α × Point α}
    (member : i ∈ controls polygon) :
    oddCrossings p (links (i.2.1 :: (splineArc samples i.1 i.2.1 i.2.2.1 i.2.2.2).tail ++
      [i.2.2.1])) = rayCrosses p i.2.1 i.2.2.1 := by
  obtain ⟨before, side, after⟩ := of_mem_controls member
  have left : 0 < turn i.2.1 i.2.2.1 p := inside _ side
  refine oddCrossings_links (f := outward i.2.1 i.2.2.1) fun q stop => ?_
  rw [outward_dot_sub, sub_pos]
  refine lt_of_le_of_lt ?_ left
  rw [List.cons_append, List.mem_cons, List.mem_append, List.mem_singleton] at stop
  rcases stop with rfl | sample | rfl
  · rw [turn_outer_self]
  · exact turn_nonpos_of_mem_splineArc (convex.turn_nonneg side before)
      (convex.turn_nonneg side after) (List.mem_of_mem_tail sample)
  · rw [turn_right_self]

/-- What lies to the left of all sides of a convex polygon is still contained in it when it is
smoothed, however many samples there are. -/
theorem pointInPolygon_smoothHull (samples : Int) :
    pointInPolygon (smoothHull samples polygon) p = pointInPolygon polygon p := by
  have count : 0 < (max 1 samples).toNat := by omega
  -- The smoothed polygon is made of runs, each of which starts at a vertex of the polygon.
  have runs : smoothHull samples polygon = (controls polygon).flatMap (fun i =>
      i.2.1 :: (splineArc (max 1 samples).toNat i.1 i.2.1 i.2.2.1 i.2.2.2).tail) := by
    rw [smoothHull, if_neg (Nat.not_lt.mpr convex.enough)]
    exact List.flatMap_congr fun i _ => splineArc_eq count
  have enough : 3 ≤ (smoothHull samples polygon).length := by
    have controlled : (controls polygon).length = polygon.length := by
      rw [← List.length_map (fun i => i.2.1), map_start_controls]
    rw [runs]
    exact convex.enough.trans (controlled ▸ length_le_flatMap (controls polygon))
  rw [pointInPolygon_eq enough, pointInPolygon_eq convex.enough, runs, sides_flatMap,
    oddCrossings_flatMap fun s => (s.1.2.1, s.2.2.1)]
  · have chords := sides_map (fun i => i.2.1) (controls polygon)
    rw [map_start_controls] at chords
    rw [chords]
    rfl
  · intro s step
    have member := (mem_of_mem_sides step).1
    dsimp only
    rw [next_control step]
    exact oddCrossings_spline convex inside (max 1 samples).toNat member

end Smoothed

end CapabilityAtlas.Geometry
