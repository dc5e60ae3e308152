import CapabilityAtlas.Proofs.Geometry.Convex
import CapabilityAtlas.Proofs.Geometry.Exact

set_option autoImplicit false
set_option relaxedAutoImplicit false

/-!
The corners of a convex polygon whose sides move outward. A corner is replaced by the point where
its moved sides meet or, if it is too sharp, by the two points where they end. What different
corners reach lies on different sides of a line across the way between their vertices.
-/

namespace CapabilityAtlas.Geometry

abbrev Corner : Type := Point ℝ × Point ℝ × Point ℝ

namespace Corner

abbrev vertex (c : Corner) : Point ℝ := c.2.1

noncomputable def before (c : Corner) : Point ℝ := normal (c.2.1.sub c.1)

noncomputable def after (c : Corner) : Point ℝ := normal (c.2.2.sub c.2.1)

/-- One more than the cosine of the angle by which the sides of a corner turn. -/
noncomputable def opening (c : Corner) : ℝ := 1 + c.before.dot c.after

/-- Whether a corner is so sharp that it is cut off. -/
def IsSharp (c : Corner) : Prop := c.opening < 1 / 8

noncomputable instance decidableIsSharp (c : Corner) : Decidable c.IsSharp :=
  inferInstanceAs (Decidable (_ < _))

/-- Where the moved side before a corner ends, by one unit. -/
noncomputable def first (c : Corner) : Point ℝ :=
  if c.IsSharp then c.before else meeting c.before c.after

/-- Where the moved side after a corner starts, by one unit. -/
noncomputable def last (c : Corner) : Point ℝ :=
  if c.IsSharp then c.after else meeting c.before c.after

noncomputable def enter (d : ℝ) (c : Corner) : Point ℝ := c.vertex.add (c.first.scale d)

noncomputable def leave (d : ℝ) (c : Corner) : Point ℝ := c.vertex.add (c.last.scale d)

/-- What replaces a vertex besides the end of the side before it. -/
noncomputable def others (d : ℝ) (c : Corner) : List (Point ℝ) :=
  if c.IsSharp then [c.leave d] else []

variable {c : Corner} {d : ℝ}

theorem enter_of_isSharp (sharp : c.IsSharp) : c.enter d = c.vertex.add (c.before.scale d) := by
  rw [enter, first, if_pos sharp]

theorem leave_of_isSharp (sharp : c.IsSharp) : c.leave d = c.vertex.add (c.after.scale d) := by
  rw [leave, last, if_pos sharp]

theorem enter_of_not_isSharp (blunt : ¬ c.IsSharp) :
    c.enter d = c.vertex.add ((meeting c.before c.after).scale d) := by
  rw [enter, first, if_neg blunt]

theorem leave_eq_enter (blunt : ¬ c.IsSharp) : c.leave d = c.enter d := by
  rw [enter_of_not_isSharp blunt, leave, last, if_neg blunt]

private theorem corner_eq (bend : IsBend c.before c.after) :
    corner d c.vertex c.before c.after = c.enter d :: c.others d := by
  unfold corner
  rw [miter?_eq bend]
  by_cases sharp : c.IsSharp
  · have narrow : 1 + c.before.dot c.after < 1 / 8 := sharp
    rw [if_pos narrow, enter_of_isSharp sharp, others, if_pos sharp, leave_of_isSharp sharp]
  · have wide : ¬ 1 + c.before.dot c.after < 1 / 8 := sharp
    rw [if_neg wide, enter_of_not_isSharp sharp, others, if_neg sharp]

theorem reaches_first (c : Corner) : Reaches c.before c.after c.first := by
  unfold first
  split
  · exact Or.inl rfl
  · exact Or.inr (Or.inr rfl)

theorem reaches_last (c : Corner) : Reaches c.before c.after c.last := by
  unfold last
  split
  · exact Or.inr (Or.inl rfl)
  · exact Or.inr (Or.inr rfl)

theorem reaches_of_end {o : Point ℝ} (ends : o = c.first ∨ o = c.last) :
    Reaches c.before c.after o := by
  rcases ends with rfl | rfl
  · exact c.reaches_first
  · exact c.reaches_last

theorem before_dot_first (bend : IsBend c.before c.after) : c.before.dot c.first = 1 := by
  unfold first
  split
  · exact bend.unit
  · exact bend.left_dot_meeting

theorem after_dot_last (bend : IsBend c.before c.after) : c.after.dot c.last = 1 := by
  unfold last
  split
  · exact bend.unit'
  · exact bend.right_dot_meeting

theorem cross_first_nonneg (bend : IsBend c.before c.after) : 0 ≤ c.before.cross c.first := by
  unfold first
  split
  · exact (cross_self _).ge
  · exact bend.left_cross_meeting

theorem cross_last_nonpos (bend : IsBend c.before c.after) : c.after.cross c.last ≤ 0 := by
  unfold last
  split
  · exact (cross_self _).le
  · exact bend.right_cross_meeting

theorem mem_pieces {p : Point ℝ} :
    p ∈ c.enter d :: c.others d ↔ p = c.enter d ∨ p = c.leave d := by
  unfold others
  split
  · simp
  · rename_i blunt
    simp [leave_eq_enter blunt]

end Corner

variable {polygon : List (Point ℝ)} {c e : Corner} {d : ℝ} {q : Point ℝ}

theorem isBend_of_mem_corners (convex : IsConvexCycle polygon) (corner : c ∈ corners polygon) :
    IsBend c.before c.after := by
  obtain ⟨before, after⟩ := sides_of_mem_corners corner
  exact isBend_normal (convex.bend before after)

private theorem zip_normals (polygon : List (Point ℝ)) :
    (polygon.zip (predecessors (normals polygon))).zip (normals polygon) =
      (corners polygon).map (fun c => ((Corner.vertex c, Corner.before c), Corner.after c)) := by
  have starts : (corners polygon).map Corner.vertex = polygon := map_vertex_corners polygon
  have befores : (corners polygon).map Corner.before = predecessors (normals polygon) := by
    rw [normals, predecessors_map, ← map_fst_corners, List.map_map]
    rfl
  have afters : (corners polygon).map Corner.after = normals polygon := by
    rw [normals, ← map_snd_corners, List.map_map]
    rfl
  calc (polygon.zip (predecessors (normals polygon))).zip (normals polygon)
      = (((corners polygon).map Corner.vertex).zip ((corners polygon).map Corner.before)).zip
          ((corners polygon).map Corner.after) := by rw [starts, befores, afters]
    _ = _ := by rw [List.zip_map', List.zip_map']

/-- Every vertex is replaced by the points to which its corner reaches. -/
theorem expandHull_eq (convex : IsConvexCycle polygon) (positive : 0 < d) :
    expandHull d polygon =
      (corners polygon).flatMap (fun c => Corner.enter d c :: Corner.others d c) := by
  have outward : ¬ d ≤ ((0 : Nat) : ℝ) := by simpa using positive
  rw [expandHull, if_neg (Nat.not_lt.mpr convex.enough), if_neg outward]
  dsimp only
  rw [zip_normals, List.flatMap_map]
  exact List.flatMap_congr fun c member => Corner.corner_eq (isBend_of_mem_corners convex member)

section Apart

variable (convex : IsConvexCycle polygon)

include convex

theorem before_dot_next (corner : c ∈ corners polygon) {p : Point ℝ}
    (flat : turn c.1 c.2.1 p = 0) : c.before.dot (c.2.2.sub p) < 0 := by
  obtain ⟨side, next⟩ := sides_of_mem_corners corner
  rw [Corner.before, normal_dot_sub, flat, zero_sub, neg_div]
  have apart := (ne_of_sides convex.nodup convex.enough side next).1
  exact neg_neg_of_pos (div_pos (convex.bend side next) (sideLength_pos apart))

variable (corner : c ∈ corners polygon) (enclosed : ∀ s ∈ sides polygon, 0 ≤ turn s.1 s.2 q)

include corner enclosed

theorem before_dot_nonpos : c.before.dot (q.sub c.vertex) ≤ 0 := by
  obtain ⟨side, next⟩ := sides_of_mem_corners corner
  rw [Corner.before, normal_dot_sub, turn_right_self, zero_sub, neg_div]
  have apart := (ne_of_sides convex.nodup convex.enough side next).1
  exact neg_nonpos.mpr (div_nonneg (enclosed _ side) (sideLength_pos apart).le)

theorem after_dot_nonpos : c.after.dot (q.sub c.vertex) ≤ 0 := by
  obtain ⟨before, side⟩ := sides_of_mem_corners corner
  rw [Corner.after, normal_dot_sub, turn_outer_self, zero_sub, neg_div]
  have apart := (ne_of_sides convex.nodup convex.enough before side).2.1
  exact neg_nonpos.mpr (div_nonneg (enclosed _ side) (sideLength_pos apart).le)

end Apart

section Levels

variable (convex : IsConvexCycle polygon) (here : c ∈ corners polygon) (there : e ∈ corners polygon)

include convex here there

private theorem vertex_inj (same : c.vertex = e.vertex) : c = e := by
  have vertices : ((corners polygon).map Corner.vertex).Nodup := by
    rw [show (corners polygon).map Corner.vertex = polygon from map_vertex_corners polygon]
    exact convex.nodup
  exact List.inj_on_of_nodup_map vertices here there same

theorem before_dot_vertex : c.before.dot (e.vertex.sub c.vertex) ≤ 0 :=
  before_dot_nonpos convex here fun _ side =>
    convex.turn_nonneg side (mem_of_mem_sides (sides_of_mem_corners there).2).1

theorem after_dot_vertex : c.after.dot (e.vertex.sub c.vertex) ≤ 0 :=
  after_dot_nonpos convex here fun _ side =>
    convex.turn_nonneg side (mem_of_mem_sides (sides_of_mem_corners there).2).1

end Levels

section Separate

variable (convex : IsConvexCycle polygon) (here : c ∈ corners polygon) (there : e ∈ corners polygon)
  (apart : c ≠ e) {o r : Point ℝ}

include convex here there apart

/-- The way between two vertices separates what the corners reach. -/
private theorem vertex_separates : 0 < (c.vertex.sub e.vertex).dot (c.vertex.sub e.vertex) ∧
    0 ≤ (c.vertex.sub e.vertex).dot c.before ∧ 0 ≤ (c.vertex.sub e.vertex).dot c.after ∧
    (c.vertex.sub e.vertex).dot e.before ≤ 0 ∧ (c.vertex.sub e.vertex).dot e.after ≤ 0 := by
  have back : ∀ m : Point ℝ, (c.vertex.sub e.vertex).dot m = -(m.dot (e.vertex.sub c.vertex)) := by
    intro m
    simp only [Point.dot, Point.sub]
    ring
  refine ⟨dot_sub_self_pos fun same => apart (vertex_inj convex here there same.symm),
    ?_, ?_, ?_, ?_⟩
  · rw [back]
    exact neg_nonneg.mpr (before_dot_vertex convex here there)
  · rw [back]
    exact neg_nonneg.mpr (after_dot_vertex convex here there)
  · rw [dot_comm]
    exact before_dot_vertex convex there here
  · rw [dot_comm]
    exact after_dot_vertex convex there here

theorem dot_le_one (reach : Reaches c.before c.after o) (reach' : Reaches e.before e.after r) :
    o.dot r ≤ 1 := by
  obtain ⟨distinct, first, second, third, fourth⟩ := vertex_separates convex here there apart
  exact dot_le_one_of_apart (isBend_of_mem_corners convex here) (isBend_of_mem_corners convex there)
    distinct first second third fourth reach reach'

/-- What two corners reach does not meet. -/
theorem moved_ne (positive : 0 < d) (reach : Reaches c.before c.after o)
    (reach' : Reaches e.before e.after r) :
    c.vertex.add (o.scale d) ≠ e.vertex.add (r.scale d) := by
  intro same
  obtain ⟨distinct, first, second, third, fourth⟩ := vertex_separates convex here there apart
  have ahead := (isBend_of_mem_corners convex here).dot_nonneg first second reach
  have behind := (isBend_of_mem_corners convex there).dot_nonpos third fourth reach'
  -- Along the way between the vertices, one side is ahead by its length and the other is not.
  have level := congrArg (fun p => (c.vertex.sub e.vertex).dot (p.sub e.vertex)) same
  simp only [dot_moved_sub] at level
  have still : (c.vertex.sub e.vertex).dot (e.vertex.sub e.vertex) = 0 := by
    simp only [Point.dot, Point.sub]
    ring
  have first := mul_nonneg positive.le ahead
  have second := mul_nonneg positive.le (neg_nonneg.mpr behind)
  linarith

end Separate

end CapabilityAtlas.Geometry
