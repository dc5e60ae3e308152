import CapabilityAtlas.Geometry.Hull
import CapabilityAtlas.Proofs.Geometry.ConvexHull
import CapabilityAtlas.Proofs.Geometry.ExpandHull
import CapabilityAtlas.Proofs.Geometry.Smooth

set_option autoImplicit false
set_option relaxedAutoImplicit false

/-!
Outlines, which only fewer than two points do not have. Around points that are not all on one line,
and with exact lengths, every point is inside the outline, smoothed or not. Without smoothing all
points keep the padding from it, except where a sharp corner is cut off: there the outline comes as
close as half the corner's angle lets it.
-/

namespace CapabilityAtlas.Geometry

section Empty

variable {α : Type} [Sub α] [Mul α] [NatCast α] [LE α] [DecidableLE α]

private theorem hullOfSorted_ne_nil {points : List (Point α)} (nonempty : points ≠ []) :
    hullOfSorted points ≠ [] := by
  unfold hullOfSorted
  split
  · exact nonempty
  · dsimp only
    split
    · cases points with
      | nil => exact absurd rfl nonempty
      | cons p rest => simp [ends]
    · rename_i long
      exact List.ne_nil_of_length_pos (by omega)

private theorem flatMap_ne_nil {β γ : Type} {places : List β} {drawn : β → List γ}
    (nonempty : places ≠ []) (each : ∀ place ∈ places, drawn place ≠ []) :
    places.flatMap drawn ≠ [] := by
  intro empty
  obtain ⟨place, member⟩ := List.exists_mem_of_ne_nil places nonempty
  exact each place member (List.flatMap_eq_nil_iff.mp empty place member)

variable [Add α] [Div α] [Neg α]

omit [LE α] [DecidableLE α] in
private theorem smoothHull_ne_nil (samples : Int) {polygon : List (Point α)}
    (nonempty : polygon ≠ []) : smoothHull samples polygon ≠ [] := by
  unfold smoothHull
  split
  · exact nonempty
  · have places : (controls polygon).length = polygon.length := by simp [controls]
    refine flatMap_ne_nil ?_ fun place _ => ?_
    · exact List.ne_nil_of_length_pos (places ▸ List.length_pos_of_ne_nil nonempty)
    · simp [splineArc]

variable [LT α] [DecidableLT α] [Length α]

private theorem expandHull_ne_nil (distance : α) {polygon : List (Point α)}
    (nonempty : polygon ≠ []) : expandHull distance polygon ≠ [] := by
  unfold expandHull
  split
  · exact nonempty
  · split
    · exact nonempty
    · have places : ((polygon.zip (predecessors (normals polygon))).zip
          (normals polygon)).length = polygon.length := by simp [normals]
      refine flatMap_ne_nil ?_ fun place _ => ?_
      · exact List.ne_nil_of_length_pos (places ▸ List.length_pos_of_ne_nil nonempty)
      · unfold corner
        split <;> simp

variable [Circular α]

private theorem padHull_ne_nil (padding : α) {hull : List (Point α)} (nonempty : hull ≠ []) :
    padHull padding hull ≠ [] := by
  unfold padHull
  split
  · rw [List.head?_eq_some_head nonempty, List.getLast?_eq_some_getLast nonempty]
    dsimp only [capsule]
    split
    · simp
    · simp [halfCircle]
  · exact expandHull_ne_nil padding nonempty

theorem outline_eq_nil_iff (style : OutlineStyle α) (points : List (Point α)) :
    outline style points = [] ↔ (Point.distinct points).length < 2 := by
  unfold outline
  split
  · rename_i few
    exact iff_of_true rfl few
  · rename_i several
    refine iff_of_false ?_ several
    have nonempty : Point.sorted points ≠ [] := by
      refine List.ne_nil_of_length_pos ?_
      rw [Point.sorted, List.length_mergeSort]
      omega
    have padded := padHull_ne_nil style.padding (hullOfSorted_ne_nil nonempty)
    dsimp only
    split
    · exact smoothHull_ne_nil style.samples padded
    · exact padded

end Empty

variable {points : List (Point ℝ)}

private theorem outline_eq (spread : ¬ OnLine points) (style : OutlineStyle ℝ) :
    outline style points =
      if style.smooth then smoothHull style.samples (expandHull style.padding (convexHull points))
      else expandHull style.padding (convexHull points) := by
  have several : ¬ (Point.distinct points).length < 2 := by
    have count := three_le_length_sorted spread
    rw [Point.sorted, List.length_mergeSort] at count
    omega
  have enough := (isHullOf_convexHull spread).enough
  rw [outline, if_neg several, padHull, if_neg (Nat.not_lt.mpr enough)]

private theorem not_onLine_of_turn {a b c : Point ℝ} (bend : turn a b c ≠ 0) : ¬ OnLine [a, b, c] :=
  fun flat => bend (flat a (by simp) b (by simp) c (by simp))

def triangle : List (Point ℝ) := [⟨0, 0⟩, ⟨4, 0⟩, ⟨0, 3⟩]

private theorem turn_triangle : 0 < turn (⟨0, 0⟩ : Point ℝ) ⟨4, 0⟩ ⟨0, 3⟩ := by
  norm_num [turn]

/-- The outline around points that are not all on one line contains them. -/
theorem pointInPolygon_outline (spread : ¬ OnLine points) (style : OutlineStyle ℝ)
    (positive : 0 < style.padding) {p : Point ℝ} (member : p ∈ points) :
    pointInPolygon (outline style points) p = true := by
  have hull := isHullOf_convexHull spread
  have convex := isConvexCycle_expandHull hull.toIsConvexCycle positive
  have inside := turn_expandHull_pos hull.toIsConvexCycle positive
    fun s side => hull.encloses s side p member
  rw [outline_eq spread]
  split
  · rw [pointInPolygon_smoothHull convex inside]
    exact pointInPolygon_of_left convex inside
  · exact pointInPolygon_of_left convex inside

theorem pointInPolygon_outline_of_triangle :
    ¬ OnLine triangle ∧
    pointInPolygon (outline { padding := (20 : ℝ), smooth := true, samples := 8 } triangle) ⟨4, 0⟩ =
      true := by
  have spread : ¬ OnLine triangle := not_onLine_of_turn turn_triangle.ne'
  exact ⟨spread, pointInPolygon_outline spread _ (by norm_num) (by simp [triangle])⟩

/-- Whether all points of a segment have a distance from a point. -/
def KeepsFrom (distance : ℝ) (p : Point ℝ) (s : Point ℝ × Point ℝ) : Prop :=
  ∀ t, 0 ≤ t → t ≤ 1 → distance ≤ ((along s.1 s.2 t).sub p).length

private theorem Faces.keepsFrom {s : Point ℝ × Point ℝ} {m v p : Point ℝ} {level distance : ℝ}
    (faces : Faces s m v level) (behind : m.dot (p.sub v) ≤ 0) (extent : 0 < m.length)
    (far : m.length * distance = level) : KeepsFrom distance p s := by
  intro t _ _
  have split : m.dot ((along s.1 s.2 t).sub p) =
      m.dot ((along s.1 s.2 t).sub v) - m.dot (p.sub v) := by
    simp only [Point.dot, Point.sub]
    ring
  have reach := Point.dot_le_length_mul_length m ((along s.1 s.2 t).sub p)
  rw [split, faces.dot_along] at reach
  refine le_of_mul_le_mul_left ?_ extent
  linarith

section Distances

variable {polygon : List (Point ℝ)} {c e : Corner} {d : ℝ} {p : Point ℝ}

private theorem keepsFrom_moved (convex : IsConvexCycle polygon) (positive : 0 < d)
    (step : (c, e) ∈ sides (corners polygon)) (enclosed : ∀ s ∈ sides polygon, 0 ≤ turn s.1 s.2 p) :
    KeepsFrom d p (c.leave d, e.enter d) := by
  have here := (mem_of_mem_sides step).1
  have unit : c.after.length = 1 := by
    rw [Point.length_eq, (isBend_of_mem_corners convex here).unit', Real.sqrt_one]
  refine (faces_moved convex positive step).keepsFrom (after_dot_nonpos convex here enclosed) ?_ ?_
  · rw [unit]
    exact one_pos
  · rw [unit, one_mul]

/-- How close the line that cuts off a corner comes to it. -/
noncomputable def Corner.clearance (d : ℝ) (c : Corner) : ℝ := d * √(c.opening / 2)

private theorem length_add_normals (convex : IsConvexCycle polygon) (here : c ∈ corners polygon) :
    (c.before.add c.after).length = 2 * √(c.opening / 2) := by
  have bend := isBend_of_mem_corners convex here
  have sum : (c.before.add c.after).dot (c.before.add c.after) = 2 ^ 2 * (c.opening / 2) := by
    have unit := bend.unit
    have unit' := bend.unit'
    simp only [Corner.opening, Point.add, Point.dot] at unit unit' ⊢
    linear_combination unit + unit'
  rw [Point.length_eq, sum, Real.sqrt_mul (by norm_num), Real.sqrt_sq (by norm_num)]

private theorem keepsFrom_bevel (convex : IsConvexCycle polygon) (positive : 0 < d)
    (here : c ∈ corners polygon) (sharp : c.IsSharp)
    (enclosed : ∀ s ∈ sides polygon, 0 ≤ turn s.1 s.2 p) :
    KeepsFrom (c.clearance d) p (c.enter d, c.leave d) := by
  have nonzero : 0 < c.opening := (isBend_of_mem_corners convex here).one_add_pos
  have root : √(c.opening / 2) * √(c.opening / 2) = c.opening / 2 :=
    Real.mul_self_sqrt (by linarith)
  refine (faces_bevel convex positive here sharp).keepsFrom ?_ ?_ ?_
  · rw [dot_add_left]
    exact add_nonpos (before_dot_nonpos convex here enclosed)
      (after_dot_nonpos convex here enclosed)
  · rw [length_add_normals convex here]
    exact mul_pos two_pos (Real.sqrt_pos.mpr (by linarith))
  · rw [length_add_normals convex here, Corner.clearance]
    linear_combination 2 * d * root

private theorem length_bevel (convex : IsConvexCycle polygon) (positive : 0 < d)
    (here : c ∈ corners polygon) (sharp : c.IsSharp) :
    ((along (c.enter d) (c.leave d) (1 / 2)).sub c.vertex).length = c.clearance d := by
  have middle : (along (c.enter d) (c.leave d) (1 / 2)).sub c.vertex =
      (c.before.add c.after).scale (d / 2) := by
    rw [Corner.enter_of_isSharp sharp, Corner.leave_of_isSharp sharp]
    ext
    · simp only [along, Point.add, Point.sub, Point.scale]
      ring
    · simp only [along, Point.add, Point.sub, Point.scale]
      ring
  rw [middle, Point.length_scale (by linarith), length_add_normals convex here, Corner.clearance]
  ring

private theorem clearance_lt (positive : 0 < d) (sharp : c.IsSharp) : c.clearance d < d / 4 := by
  have small : √(c.opening / 2) < 1 / 4 := by
    rw [Real.sqrt_lt' (by norm_num)]
    have narrow : c.opening < 1 / 8 := sharp
    linarith
  rw [Corner.clearance]
  have product := mul_lt_mul_of_pos_left small positive
  linarith

end Distances

/-- Every side of an outline that is not smoothed keeps the padding from all points, unless it cuts
off a sharp corner of the hull. Such a side keeps less than a quarter of the padding, which is how
close it comes to the corner. So the padding is kept exactly if no corner of the hull is sharp. -/
theorem outline_keepsFrom (spread : ¬ OnLine points) {padding : ℝ} (positive : 0 < padding)
    (samples : Int) :
    (∀ s ∈ sides (outline ⟨padding, false, samples⟩ points),
      (∀ p ∈ points, KeepsFrom padding p s) ∨
      ∃ c : Corner, c ∈ corners (convexHull points) ∧ c.IsSharp ∧ c.vertex ∈ points ∧
        (∀ p ∈ points, KeepsFrom (c.clearance padding) p s) ∧
        ((along s.1 s.2 (1 / 2)).sub c.vertex).length = c.clearance padding ∧
        c.clearance padding < padding / 4) ∧
    ((∀ s ∈ sides (outline ⟨padding, false, samples⟩ points), ∀ p ∈ points,
        KeepsFrom padding p s) ↔
      ∀ c : Corner, c ∈ corners (convexHull points) → ¬ c.IsSharp) := by
  have hull := isHullOf_convexHull spread
  have convex := hull.toIsConvexCycle
  have enclosed : ∀ p ∈ points, ∀ s ∈ sides (convexHull points), 0 ≤ turn s.1 s.2 p :=
    fun p member s side => hull.encloses s side p member
  have vertex : ∀ c : Corner, c ∈ corners (convexHull points) → c.vertex ∈ points :=
    fun c here => hull.subset (mem_of_mem_sides (sides_of_mem_corners here).2).1
  have plain : outline ⟨padding, false, samples⟩ points =
      expandHull padding (convexHull points) := outline_eq spread _
  have listed := fun {s : Point ℝ × Point ℝ} => mem_sides_expandHull (s := s) convex positive
  rw [plain]
  refine ⟨?_, ?_, ?_⟩
  · intro s side
    rcases listed.mp side with ⟨c, e, step, rfl⟩ | ⟨c, here, sharp, rfl⟩
    · exact Or.inl fun p member => keepsFrom_moved convex positive step (enclosed p member)
    · exact Or.inr ⟨c, here, sharp, vertex c here,
        fun p member => keepsFrom_bevel convex positive here sharp (enclosed p member),
        length_bevel convex positive here sharp, clearance_lt positive sharp⟩
  · intro keeps c here sharp
    have far := keeps _ (listed.mpr (Or.inr ⟨c, here, sharp, rfl⟩)) c.vertex (vertex c here)
      (1 / 2) (by norm_num) (by norm_num)
    rw [length_bevel convex positive here sharp] at far
    have close := clearance_lt positive sharp
    linarith
  · intro blunt s side p member
    rcases listed.mp side with ⟨c, e, step, rfl⟩ | ⟨c, here, sharp, rfl⟩
    · exact keepsFrom_moved convex positive step (enclosed p member)
    · exact absurd sharp (blunt c here)

section Triangles

variable {a b c : Point ℝ}

private theorem perm_hull_of_turn (bend : 0 < turn a b c) :
    (convexHull [a, b, c]).Perm [a, b, c] := by
  have hull := isHullOf_convexHull (not_onLine_of_turn bend.ne')
  exact (hull.nodup.subperm hull.subset).perm_of_length_le hull.enough

private theorem neighbors_of_turn {u v w x y : Point ℝ} (bend : 0 < turn v x y)
    (left : 0 < turn u v w) (before : u = v ∨ u = x ∨ u = y) (after : w = v ∨ w = x ∨ w = y) :
    u = y ∧ w = x := by
  rcases before with rfl | rfl | rfl
  · exact absurd (turn_left_self u w) left.ne'
  · rcases after with rfl | rfl | rfl
    · exact absurd (turn_right_self u w) left.ne'
    · exact absurd (turn_outer_self w v) left.ne'
    · rw [turn_swap] at left
      linarith
  · rcases after with rfl | rfl | rfl
    · exact absurd (turn_right_self u w) left.ne'
    · exact ⟨rfl, rfl⟩
    · exact absurd (turn_outer_self w v) left.ne'

private theorem corner_of_triangle (bend : 0 < turn a b c) {k : Corner}
    (corner : k ∈ corners (convexHull [a, b, c])) :
    k = (c, a, b) ∨ k = (a, b, c) ∨ k = (b, c, a) := by
  have hull := isHullOf_convexHull (not_onLine_of_turn bend.ne')
  obtain ⟨u, v, w⟩ := k
  obtain ⟨before, after⟩ := sides_of_mem_corners corner
  have left := hull.bend before after
  have hu := hull.subset (mem_of_mem_sides before).1
  have hv := hull.subset (mem_of_mem_sides after).1
  have hw := hull.subset (mem_of_mem_sides after).2
  simp only [List.mem_cons, List.not_mem_nil, or_false] at hu hv hw
  have bend' : 0 < turn b c a := turn_rotate a b c ▸ bend
  have bend'' : 0 < turn c a b := turn_rotate b c a ▸ bend'
  rcases hv with rfl | rfl | rfl
  · obtain ⟨rfl, rfl⟩ := neighbors_of_turn bend left hu hw
    exact Or.inl rfl
  · obtain ⟨rfl, rfl⟩ := neighbors_of_turn bend' left (by tauto) (by tauto)
    exact Or.inr (Or.inl rfl)
  · obtain ⟨rfl, rfl⟩ := neighbors_of_turn bend'' left (by tauto) (by tauto)
    exact Or.inr (Or.inr rfl)

end Triangles

private theorem not_isSharp_triangle {k : Corner} (corner : k ∈ corners (convexHull triangle)) :
    ¬ k.IsSharp := by
  have first : sideLength (Point.sub ⟨4, 0⟩ ⟨0, 0⟩ : Point ℝ) = 4 :=
    sideLength_eq (by norm_num) (by norm_num [Point.sub, Point.dot])
  have second : sideLength (Point.sub ⟨0, 3⟩ ⟨4, 0⟩ : Point ℝ) = 5 :=
    sideLength_eq (by norm_num) (by norm_num [Point.sub, Point.dot])
  have third : sideLength (Point.sub ⟨0, 0⟩ ⟨0, 3⟩ : Point ℝ) = 3 :=
    sideLength_eq (by norm_num) (by norm_num [Point.sub, Point.dot])
  rcases corner_of_triangle turn_triangle corner with rfl | rfl | rfl
  · simp only [Corner.IsSharp, Corner.opening, Corner.before, Corner.after, normal, first, third]
    norm_num [Point.sub, Point.dot, Point.divide]
  · simp only [Corner.IsSharp, Corner.opening, Corner.before, Corner.after, normal, first, second]
    norm_num [Point.sub, Point.dot, Point.divide]
  · simp only [Corner.IsSharp, Corner.opening, Corner.before, Corner.after, normal, second, third]
    norm_num [Point.sub, Point.dot, Point.divide]

theorem outline_keepsFrom_of_triangle :
    ¬ OnLine triangle ∧ (0 : ℝ) < 20 ∧
    ∀ s ∈ sides (outline ⟨20, false, 8⟩ triangle), ∀ p ∈ triangle, KeepsFrom 20 p s := by
  have spread : ¬ OnLine triangle := not_onLine_of_turn turn_triangle.ne'
  have positive : (0 : ℝ) < 20 := by norm_num
  exact ⟨spread, positive,
    (outline_keepsFrom spread positive 8).2.mpr fun _ corner => not_isSharp_triangle corner⟩

def needle : List (Point ℝ) := [⟨0, 0⟩, ⟨40, -9⟩, ⟨40, 9⟩]

def needleTip : Corner := (⟨40, 9⟩, ⟨0, 0⟩, ⟨40, -9⟩)

theorem turn_needle : 0 < turn (⟨0, 0⟩ : Point ℝ) ⟨40, -9⟩ ⟨40, 9⟩ := by
  norm_num [turn]

private theorem needleTip_mem_corners : needleTip ∈ corners (convexHull needle) := by
  have tip : (⟨0, 0⟩ : Point ℝ) ∈ convexHull needle :=
    (perm_hull_of_turn turn_needle).mem_iff.mpr List.mem_cons_self
  obtain ⟨w, after⟩ := exists_side_from tip
  obtain ⟨u, corner⟩ := exists_corner_of_side after
  rcases corner_of_triangle turn_needle corner with same | same | same
  · rw [same] at corner
    exact corner
  · norm_num at same
  · norm_num at same

theorem isSharp_needleTip : needleTip.IsSharp := by
  have first : sideLength (Point.sub ⟨0, 0⟩ ⟨40, 9⟩ : Point ℝ) = 41 :=
    sideLength_eq (by norm_num) (by norm_num [Point.sub, Point.dot])
  have second : sideLength (Point.sub ⟨40, -9⟩ ⟨0, 0⟩ : Point ℝ) = 41 :=
    sideLength_eq (by norm_num) (by norm_num [Point.sub, Point.dot])
  simp only [Corner.IsSharp, Corner.opening, Corner.before, Corner.after, needleTip, normal, first,
    second]
  norm_num [Point.sub, Point.dot, Point.divide]

/-- The outline of a needle comes closer to its tip than a quarter of the padding. -/
theorem not_keepsFrom_needle :
    ¬ OnLine needle ∧
    ∃ s ∈ sides (outline ⟨41, false, 8⟩ needle), ∃ p ∈ needle,
      ((along s.1 s.2 (1 / 2)).sub p).length < 41 / 4 ∧ ¬ KeepsFrom 41 p s := by
  have spread : ¬ OnLine needle := not_onLine_of_turn turn_needle.ne'
  have convex := (isHullOf_convexHull spread).toIsConvexCycle
  have positive : (0 : ℝ) < 41 := by norm_num
  have side := (mem_sides_expandHull convex positive).mpr
    (Or.inr ⟨needleTip, needleTip_mem_corners, isSharp_needleTip, rfl⟩)
  have close := clearance_lt positive isSharp_needleTip
  rw [← length_bevel convex positive needleTip_mem_corners isSharp_needleTip] at close
  refine ⟨spread, (needleTip.enter 41, needleTip.leave 41), ?_, needleTip.vertex,
    by simp [needle, needleTip], close, fun keeps => ?_⟩
  · rw [outline_eq spread]
    exact side
  · have far := keeps (1 / 2) (by norm_num) (by norm_num)
    have wrong : (41 : ℝ) < 41 / 4 := far.trans_lt close
    norm_num at wrong

end CapabilityAtlas.Geometry
