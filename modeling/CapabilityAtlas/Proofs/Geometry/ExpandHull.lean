import CapabilityAtlas.Proofs.Geometry.Offset

set_option autoImplicit false
set_option relaxedAutoImplicit false

/-!
The sides of a convex polygon that has moved outward. Each of them faces away from a vertex of the
polygon at a certain level, so a turn at the side is read off from how far a point is in that
direction. Nothing that a corner reaches is beyond the level, and the result is convex again.
-/

namespace CapabilityAtlas.Geometry

variable {polygon : List (Point ℝ)} {c e : Corner} {d : ℝ} {q : Point ℝ}

/-- Whether a side has to its left what is below a level in a direction from a point. -/
def Faces (s : Point ℝ × Point ℝ) (m v : Point ℝ) (level : ℝ) : Prop :=
  ∃ r > 0, ∀ q, turn s.1 s.2 q = r * (level - m.dot (q.sub v))

namespace Faces

variable {s : Point ℝ × Point ℝ} {m v : Point ℝ} {level : ℝ}

theorem turn_pos (faces : Faces s m v level) (below : m.dot (q.sub v) < level) :
    0 < turn s.1 s.2 q := by
  obtain ⟨r, positive, turns⟩ := faces
  rw [turns]
  exact mul_pos positive (sub_pos.mpr below)

private theorem turn_nonneg (faces : Faces s m v level) (below : m.dot (q.sub v) ≤ level) :
    0 ≤ turn s.1 s.2 q := by
  obtain ⟨r, positive, turns⟩ := faces
  rw [turns]
  exact mul_nonneg positive.le (sub_nonneg.mpr below)

theorem dot_along (faces : Faces s m v level) (t : ℝ) :
    m.dot ((along s.1 s.2 t).sub v) = level := by
  obtain ⟨r, positive, turns⟩ := faces
  have flat := turns (along s.1 s.2 t)
  rw [turn_along, turn_outer_self, turn_right_self, mul_zero, mul_zero, add_zero] at flat
  have zero := (mul_eq_zero.mp flat.symm).resolve_left positive.ne'
  linarith

end Faces

private theorem before_eq_after (step : (c, e) ∈ sides (corners polygon)) : e.before = c.after := by
  obtain ⟨start, stop⟩ := shared_side step
  rw [Corner.before, Corner.after, start, stop]

theorem after_dot_next_first (convex : IsConvexCycle polygon)
    (step : (c, e) ∈ sides (corners polygon)) :
    c.after.dot e.first = 1 ∧ 0 ≤ c.after.cross e.first := by
  have bend := isBend_of_mem_corners convex (mem_of_mem_sides step).2
  rw [← before_eq_after step]
  exact ⟨Corner.before_dot_first bend, Corner.cross_first_nonneg bend⟩

theorem faces_moved (convex : IsConvexCycle polygon) (positive : 0 < d)
    (step : (c, e) ∈ sides (corners polygon)) :
    Faces (c.leave d, e.enter d) c.after c.vertex d := by
  have here := (mem_of_mem_sides step).1
  have bend := isBend_of_mem_corners convex here
  have apart : c.2.1 ≠ c.2.2 := by
    obtain ⟨before, after⟩ := sides_of_mem_corners here
    exact (ne_of_sides convex.nodup convex.enough before after).2.1
  obtain ⟨ends, ahead⟩ := after_dot_next_first convex step
  have behind := Corner.cross_last_nonpos bend
  refine ⟨sideLength (c.2.2.sub c.2.1) + d * (c.after.cross e.first - c.after.cross c.last), ?_, ?_⟩
  · have longer : 0 ≤ d * (c.after.cross e.first - c.after.cross c.last) :=
      mul_nonneg positive.le (by linarith)
    have long := sideLength_pos apart
    linarith
  · intro q
    have vertex : e.vertex = c.2.2 := (shared_side step).2
    rw [Corner.leave, Corner.enter, vertex]
    exact turn_moved bend.unit' (sub_eq_of_normal apart) (Corner.after_dot_last bend) ends q

theorem faces_bevel (convex : IsConvexCycle polygon) (positive : 0 < d)
    (here : c ∈ corners polygon) (sharp : c.IsSharp) :
    Faces (c.enter d, c.leave d) (c.before.add c.after) c.vertex (d * c.opening) := by
  have bend := isBend_of_mem_corners convex here
  have nonzero : 0 < c.opening := bend.one_add_pos
  refine ⟨d * c.before.cross c.after / c.opening, div_pos (mul_pos positive bend.left) nonzero, ?_⟩
  intro q
  have product := bend.turn_bevel d c.vertex q
  rw [Corner.enter_of_isSharp sharp, Corner.leave_of_isSharp sharp]
  refine mul_right_cancel₀ nonzero.ne' (product.trans ?_)
  rw [Corner.opening] at nonzero ⊢
  field_simp

/-- The sides of the expanded polygon. -/
theorem mem_sides_expandHull (convex : IsConvexCycle polygon) (positive : 0 < d)
    {s : Point ℝ × Point ℝ} :
    s ∈ sides (expandHull d polygon) ↔
      (∃ c e : Corner, (c, e) ∈ sides (corners polygon) ∧ s = (c.leave d, e.enter d)) ∨
      ∃ c : Corner, c ∈ corners polygon ∧ c.IsSharp ∧ s = (c.enter d, c.leave d) := by
  have run : ∀ c e : Corner, s ∈ links (c.enter d :: c.others d ++ [e.enter d]) ↔
      s = (c.leave d, e.enter d) ∨ c.IsSharp ∧ s = (c.enter d, c.leave d) := by
    intro c e
    unfold Corner.others
    split
    · rename_i sharp
      simp [links, sharp, or_comm]
    · rename_i blunt
      simp [links, blunt, Corner.leave_eq_enter blunt]
  rw [expandHull_eq convex positive, sides_flatMap, List.mem_flatMap]
  constructor
  · rintro ⟨⟨c, e⟩, step, member⟩
    rcases (run c e).mp member with moved | ⟨sharp, bevel⟩
    · exact Or.inl ⟨c, e, step, moved⟩
    · exact Or.inr ⟨c, (mem_of_mem_sides step).1, sharp, bevel⟩
  · rintro (⟨c, e, step, moved⟩ | ⟨c, here, sharp, bevel⟩)
    · exact ⟨(c, e), step, (run c e).mpr (Or.inl moved)⟩
    · obtain ⟨e, step⟩ := exists_side_from here
      exact ⟨(c, e), step, (run c e).mpr (Or.inr ⟨sharp, bevel⟩)⟩

theorem mem_expandHull (convex : IsConvexCycle polygon) (positive : 0 < d) :
    q ∈ expandHull d polygon ↔
      ∃ c : Corner, c ∈ corners polygon ∧ (q = c.enter d ∨ q = c.leave d) := by
  rw [expandHull_eq convex positive, List.mem_flatMap]
  simp only [Corner.mem_pieces]

section Levels

variable (convex : IsConvexCycle polygon) (positive : 0 < d) (here : c ∈ corners polygon)
  (there : e ∈ corners polygon) {o : Point ℝ} (ends : o = e.first ∨ o = e.last)

include convex positive here there ends

private theorem after_dot_moved : c.after.dot ((e.vertex.add (o.scale d)).sub c.vertex) ≤
    c.after.dot (e.vertex.sub c.vertex) + d := by
  have reach := Corner.reaches_of_end ends
  have bound : c.after.dot o ≤ 1 := by
    by_cases same : c = e
    · obtain rfl := same
      exact (isBend_of_mem_corners convex here).right_dot_le reach
    · exact dot_le_one convex here there same (Or.inr (Or.inl rfl)) reach
  have further := mul_le_mul_of_nonneg_left bound positive.le
  rw [dot_moved_sub]
  linarith

private theorem bevel_dot_moved (sharp : c.IsSharp) :
    (c.before.add c.after).dot ((e.vertex.add (o.scale d)).sub c.vertex) ≤
      c.before.dot (e.vertex.sub c.vertex) + d * c.opening := by
  have bend := isBend_of_mem_corners convex here
  have bound : (c.before.add c.after).dot o ≤ c.opening := by
    rw [dot_add_left]
    by_cases same : c = e
    · obtain rfl := same
      rw [Corner.first, Corner.last, if_pos sharp, if_pos sharp] at ends
      rcases ends with rfl | rfl
      · rw [bend.unit, dot_comm, Corner.opening]
      · rw [bend.unit', Corner.opening, add_comm]
    · -- The line is the polar of the meeting point, which the other corner does not pass.
      have reach := dot_le_one convex here there same (Or.inr (Or.inr rfl))
        (Corner.reaches_of_end ends)
      have double := bend.dot_meeting o
      rw [dot_comm o, dot_comm o, dot_comm o] at double
      rw [← double]
      have scaled := mul_le_mul_of_nonneg_right reach bend.one_add_pos.le
      rw [one_mul] at scaled
      exact scaled
  have further := mul_le_mul_of_nonneg_left bound positive.le
  have behind := after_dot_vertex convex here there
  rw [dot_moved_sub, dot_add_left]
  linarith

end Levels

section Expanded

variable (convex : IsConvexCycle polygon) (positive : 0 < d)

include convex positive

private theorem exists_end_of_mem {p : Point ℝ} (member : p ∈ expandHull d polygon) :
    ∃ e : Corner, e ∈ corners polygon ∧ ∃ o, (o = e.first ∨ o = e.last) ∧
      p = e.vertex.add (o.scale d) := by
  obtain ⟨e, there, rfl | rfl⟩ := (mem_expandHull convex positive).mp member
  · exact ⟨e, there, e.first, Or.inl rfl, rfl⟩
  · exact ⟨e, there, e.last, Or.inr rfl, rfl⟩

private theorem turn_expandHull_nonneg {s : Point ℝ × Point ℝ}
    (side : s ∈ sides (expandHull d polygon))
    {p : Point ℝ} (member : p ∈ expandHull d polygon) : 0 ≤ turn s.1 s.2 p := by
  obtain ⟨e, there, o, ends, rfl⟩ := exists_end_of_mem convex positive member
  rcases (mem_sides_expandHull convex positive).mp side with
    ⟨c, c', step, rfl⟩ | ⟨c, here, sharp, rfl⟩
  · have here := (mem_of_mem_sides step).1
    refine (faces_moved convex positive step).turn_nonneg ?_
    have behind := after_dot_vertex convex here there
    have further := after_dot_moved convex positive here there ends
    linarith
  · refine (faces_bevel convex positive here sharp).turn_nonneg ?_
    have behind := before_dot_vertex convex here there
    have further := bevel_dot_moved convex positive here there ends sharp
    linarith

theorem nodup_expandHull : (expandHull d polygon).Nodup := by
  have apart : (corners polygon).Pairwise (· ≠ ·) := by
    have vertices : ((corners polygon).map (fun c => c.2.1)).Nodup := by
      rw [map_vertex_corners]
      exact convex.nodup
    exact List.Nodup.of_map _ vertices
  rw [expandHull_eq convex positive, List.nodup_flatMap]
  constructor
  · intro c here
    have bend := isBend_of_mem_corners convex here
    unfold Corner.others
    split
    · rename_i sharp
      rw [List.nodup_cons, List.mem_singleton]
      refine ⟨fun same => ?_, List.nodup_singleton _⟩
      have level := congrArg (fun p => (Corner.before c).dot (p.sub (Corner.vertex c))) same
      rw [Corner.enter_of_isSharp sharp, Corner.leave_of_isSharp sharp] at level
      simp only [dot_moved_sub, bend.unit] at level
      have equal : d * 1 = d * (Corner.before c).dot (Corner.after c) := by linarith
      exact bend.dot_lt_one.ne (mul_left_cancel₀ positive.ne' equal).symm
    · exact List.nodup_singleton _
  · refine apart.imp_of_mem fun {c e} here there different => ?_
    intro p first second
    have reaches : ∀ e : Corner, p ∈ e.enter d :: e.others d →
        ∃ o, Reaches e.before e.after o ∧ p = e.vertex.add (o.scale d) := by
      intro e member
      rcases Corner.mem_pieces.mp member with rfl | rfl
      · exact ⟨e.first, e.reaches_first, rfl⟩
      · exact ⟨e.last, e.reaches_last, rfl⟩
    obtain ⟨o, reach, rfl⟩ := reaches c first
    obtain ⟨r, reach', same⟩ := reaches e second
    exact moved_ne convex here there different positive reach reach' same

section Bends

variable (step : (c, e) ∈ sides (corners polygon))

include step

private theorem turn_moved_bevel_pos (sharp : e.IsSharp) :
    0 < turn (c.leave d) (e.enter d) (e.leave d) := by
  obtain ⟨here, there⟩ := mem_of_mem_sides step
  have behind := after_dot_vertex convex here there
  have further := mul_lt_mul_of_pos_left (isBend_of_mem_corners convex there).dot_lt_one positive
  refine (faces_moved convex positive step).turn_pos ?_
  rw [Corner.leave_of_isSharp sharp, dot_moved_sub]
  rw [before_eq_after step] at further
  linarith

private theorem turn_moved_moved_pos {k : Corner} (step' : (e, k) ∈ sides (corners polygon)) :
    0 < turn (c.leave d) (e.enter d) (k.enter d) := by
  obtain ⟨here, there⟩ := mem_of_mem_sides step
  obtain ⟨start, stop⟩ := shared_side step
  have beyond : c.after.dot (k.2.1.sub c.vertex) < 0 := by
    have next := before_dot_next convex there (turn_outer_self e.1 e.2.1)
    rwa [Corner.before, start, stop, ← (shared_side step').2] at next
  have further := after_dot_moved convex positive here (mem_of_mem_sides step').2 (Or.inl rfl)
  refine (faces_moved convex positive step).turn_pos ?_
  rw [Corner.enter]
  linarith

private theorem turn_bevel_moved_pos (sharp : c.IsSharp) :
    0 < turn (c.enter d) (c.leave d) (e.enter d) := by
  obtain ⟨here, there⟩ := mem_of_mem_sides step
  have beyond : c.before.dot (e.2.1.sub c.vertex) < 0 := by
    rw [(shared_side step).2]
    exact before_dot_next convex here (turn_right_self c.1 c.2.1)
  have further := bevel_dot_moved convex positive here there (Or.inl rfl) sharp
  refine (faces_bevel convex positive here sharp).turn_pos ?_
  rw [Corner.enter]
  linarith

end Bends

theorem bend_expandHull {a b f : Point ℝ} (before : (a, b) ∈ sides (expandHull d polygon))
    (after : (b, f) ∈ sides (expandHull d polygon)) : 0 < turn a b f := by
  have nodup := nodup_expandHull convex positive
  have listed := fun {s : Point ℝ × Point ℝ} => mem_sides_expandHull (s := s) convex positive
  rcases listed.mp before with ⟨c, e, step, same⟩ | ⟨c, here, sharp, same⟩
  · obtain ⟨rfl, rfl⟩ := Prod.mk.inj same
    have there := (mem_of_mem_sides step).2
    -- A moved side is followed by the cut at its corner or, if there is none, by the next side.
    by_cases sharp : e.IsSharp
    · rw [end_unique nodup after (listed.mpr (Or.inr ⟨e, there, sharp, rfl⟩))]
      exact turn_moved_bevel_pos convex positive step sharp
    · obtain ⟨k, step'⟩ := exists_side_from there
      have next := listed.mpr (Or.inl ⟨e, k, step', rfl⟩)
      rw [Corner.leave_eq_enter sharp] at next
      rw [end_unique nodup after next]
      exact turn_moved_moved_pos convex positive step step'
  · obtain ⟨rfl, rfl⟩ := Prod.mk.inj same
    obtain ⟨e, step⟩ := exists_side_from here
    rw [end_unique nodup after (listed.mpr (Or.inl ⟨c, e, step, rfl⟩))]
    exact turn_bevel_moved_pos convex positive step sharp

/-- A convex polygon that has moved outward is convex. -/
theorem isConvexCycle_expandHull : IsConvexCycle (expandHull d polygon) := by
  have enough : 3 ≤ (expandHull d polygon).length := by
    have count : (corners polygon).length = polygon.length := by
      rw [← List.length_map (fun c => c.2.1), map_vertex_corners]
    rw [expandHull_eq convex positive]
    exact convex.enough.trans (count ▸ length_le_flatMap (corners polygon))
  exact isConvexCycle_of_bends enough (nodup_expandHull convex positive)
    (fun s side p member => turn_expandHull_nonneg convex positive side member)
    fun a b f before after => bend_expandHull convex positive before after

theorem turn_expandHull_pos (enclosed : ∀ s ∈ sides polygon, 0 ≤ turn s.1 s.2 q) :
    ∀ s ∈ sides (expandHull d polygon), 0 < turn s.1 s.2 q := by
  intro s side
  rcases (mem_sides_expandHull convex positive).mp side with
    ⟨c, c', step, rfl⟩ | ⟨c, here, sharp, rfl⟩
  · have behind := after_dot_nonpos convex (mem_of_mem_sides step).1 enclosed
    exact (faces_moved convex positive step).turn_pos (behind.trans_lt positive)
  · have behind := before_dot_nonpos convex here enclosed
    have behind' := after_dot_nonpos convex here enclosed
    refine (faces_bevel convex positive here sharp).turn_pos ?_
    rw [dot_add_left]
    have level : 0 < d * c.opening :=
      mul_pos positive (isBend_of_mem_corners convex here).one_add_pos
    linarith

end Expanded

end CapabilityAtlas.Geometry
