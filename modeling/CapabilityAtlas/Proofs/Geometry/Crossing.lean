import CapabilityAtlas.Geometry.HullGroup
import CapabilityAtlas.Proofs.Geometry.Convex
import Mathlib.Data.Finset.Max

set_option autoImplicit false
set_option relaxedAutoImplicit false

/-!
How often a ray meets a polygon. Only whether the number of crossings is odd matters, so crossings
may be counted in any order, and a path may be replaced by the segment between its ends as long as
both keep to one side of the point. A convex polygon is crossed once by the ray from a point that
lies to the left of all its sides.
-/

namespace CapabilityAtlas.Geometry

section Parity

variable {α : Type} [Field α] [LinearOrder α] {p : Point α}

/-- Whether the ray from a point crosses an odd number of segments. -/
def oddCrossings (p : Point α) (segments : List (Point α × Point α)) : Bool :=
  segments.foldl (fun odd s => odd != rayCrosses p s.1 s.2) false

private theorem foldl_crossings (odd : Bool) (segments : List (Point α × Point α)) :
    segments.foldl (fun odd s => odd != rayCrosses p s.1 s.2) odd =
      (odd != oddCrossings p segments) := by
  unfold oddCrossings
  induction segments generalizing odd with
  | nil => simp
  | cons s rest ih =>
    rw [List.foldl_cons, List.foldl_cons, ih, ih (false != _)]
    simp

@[simp] theorem oddCrossings_nil : oddCrossings p [] = false := rfl

theorem oddCrossings_cons (s : Point α × Point α) (rest : List (Point α × Point α)) :
    oddCrossings p (s :: rest) = (rayCrosses p s.1 s.2 != oddCrossings p rest) := by
  rw [oddCrossings, List.foldl_cons, foldl_crossings, Bool.false_bne]

private theorem oddCrossings_append (first second : List (Point α × Point α)) :
    oddCrossings p (first ++ second) = (oddCrossings p first != oddCrossings p second) := by
  rw [oddCrossings, List.foldl_append, foldl_crossings, foldl_crossings, Bool.false_bne]

theorem oddCrossings_perm {first second : List (Point α × Point α)} (perm : first.Perm second) :
    oddCrossings p first = oddCrossings p second := by
  induction perm with
  | nil => rfl
  | cons s _ ih => rw [oddCrossings_cons, oddCrossings_cons, ih]
  | swap s t rest =>
    have swap : ∀ x y z : Bool, (y != (x != z)) = (x != (y != z)) := by decide
    simp only [oddCrossings_cons, swap (rayCrosses p s.1 s.2)]
  | trans _ _ ih ih' => exact ih.trans ih'

theorem oddCrossings_flatMap {β : Type} {items : List β} {runs : β → List (Point α × Point α)}
    (chord : β → Point α × Point α)
    (alike : ∀ i ∈ items, oddCrossings p (runs i) = rayCrosses p (chord i).1 (chord i).2) :
    oddCrossings p (items.flatMap runs) = oddCrossings p (items.map chord) := by
  induction items with
  | nil => rfl
  | cons i rest ih =>
    rw [List.forall_mem_cons] at alike
    rw [List.flatMap_cons, oddCrossings_append, List.map_cons, oddCrossings_cons, alike.1,
      ih alike.2]

private theorem oddCrossings_eq_false {segments : List (Point α × Point α)}
    (missed : ∀ s ∈ segments, rayCrosses p s.1 s.2 = false) : oddCrossings p segments = false := by
  induction segments with
  | nil => rfl
  | cons s rest ih =>
    rw [List.forall_mem_cons] at missed
    rw [oddCrossings_cons, missed.1, ih missed.2]
    rfl

private theorem oddCrossings_of_unique {segments : List (Point α × Point α)} {s : Point α × Point α}
    (nodup : segments.Nodup) (member : s ∈ segments) (crossed : rayCrosses p s.1 s.2)
    (unique : ∀ t ∈ segments, rayCrosses p t.1 t.2 → t = s) : oddCrossings p segments = true := by
  obtain ⟨front, back, rfl⟩ := List.append_of_mem member
  rw [List.nodup_middle, List.nodup_cons, List.mem_append, not_or] at nodup
  have missed : ∀ t ∈ front ++ back, rayCrosses p t.1 t.2 = false := by
    intro t other
    by_contra hit
    obtain rfl := unique t (by simp only [List.mem_append, List.mem_cons] at other ⊢; tauto)
      (Bool.not_eq_false _ ▸ hit)
    exact (not_or.mpr nodup.1) (List.mem_append.mp other)
  rw [oddCrossings_perm List.perm_middle, oddCrossings_cons, crossed, oddCrossings_eq_false missed]
  rfl

theorem pointInPolygon_eq {polygon : List (Point α)} (enough : 3 ≤ polygon.length) (p : Point α) :
    pointInPolygon polygon p = oddCrossings p (sides polygon) := by
  rw [pointInPolygon, if_neg (Nat.not_lt.mpr enough), ← oddCrossings_perm (perm_sides polygon)]
  rfl

end Parity

variable {α : Type} [Field α] [LinearOrder α] [IsStrictOrderedRing α]
  {polygon : List (Point α)} {a b p : Point α}

section HalfPlane

variable {f : Point α}

private theorem rayCrosses_of_dot_pos (first : 0 < f.dot (a.sub p)) (second : 0 < f.dot (b.sub p)) :
    rayCrosses p a b = ((decide (p.y < b.y) != decide (p.y < a.y)) && decide (0 < f.x)) := by
  by_cases level : decide (p.y < b.y) = decide (p.y < a.y)
  · simp [rayCrosses, level]
  have apart : a.y - b.y ≠ 0 := by
    intro same
    exact level (by rw [sub_eq_zero.mp same])
  -- The weights of the ends at the level of the point.
  have weights : 0 ≤ (p.y - b.y) / (a.y - b.y) ∧ 0 ≤ (a.y - p.y) / (a.y - b.y) := by
    by_cases up : p.y < b.y
    · have low : a.y ≤ p.y := by simpa [up] using level
      exact ⟨div_nonneg_of_nonpos (by linarith) (by linarith),
        div_nonneg_of_nonpos (by linarith) (by linarith)⟩
    · have high : p.y < a.y := by simpa [up] using level
      exact ⟨div_nonneg (by linarith) (by linarith), div_nonneg (by linarith) (by linarith)⟩
  have whole : (p.y - b.y) / (a.y - b.y) + (a.y - p.y) / (a.y - b.y) = 1 := by
    field_simp
    ring
  have meeting : f.x * ((a.x - b.x) * (p.y - b.y) / (a.y - b.y) + b.x - p.x) =
      (p.y - b.y) / (a.y - b.y) * f.dot (a.sub p) +
        (a.y - p.y) / (a.y - b.y) * f.dot (b.sub p) := by
    simp only [Point.dot, Point.sub]
    field_simp
    ring
  have positive : 0 < f.x * ((a.x - b.x) * (p.y - b.y) / (a.y - b.y) + b.x - p.x) := by
    rw [meeting]
    rcases weights.1.eq_or_lt with zero | some
    · rw [← zero, zero_add] at whole
      rw [← zero, whole, zero_mul, zero_add, one_mul]
      exact second
    · exact add_pos_of_pos_of_nonneg (mul_pos some first) (mul_nonneg weights.2 second.le)
  have side : p.x < (a.x - b.x) * (p.y - b.y) / (a.y - b.y) + b.x ↔ 0 < f.x := by
    rw [← sub_pos]
    exact (pos_iff_pos_of_mul_pos positive).symm
  simp only [rayCrosses, side]

/-- A path in an open half plane at the point is crossed as often as the segment between its ends,
up to an even number. -/
theorem oddCrossings_links {x y : Point α} {others : List (Point α)}
    (within : ∀ q ∈ x :: others ++ [y], 0 < f.dot (q.sub p)) :
    oddCrossings p (links (x :: others ++ [y])) = rayCrosses p x y := by
  induction others generalizing x with
  | nil =>
    change oddCrossings p [(x, y)] = _
    rw [oddCrossings_cons, oddCrossings_nil, Bool.bne_false]
  | cons o others ih =>
    rw [List.cons_append, List.forall_mem_cons] at within
    obtain ⟨hx, later⟩ := within
    have ho : 0 < f.dot (o.sub p) := later o List.mem_cons_self
    have hy : 0 < f.dot (y.sub p) := later y (by simp)
    have chain : ∀ x o y r : Bool, (((o != x) && r) != ((y != o) && r)) = ((y != x) && r) := by
      decide
    change oddCrossings p ((x, o) :: links (o :: others ++ [y])) = _
    rw [oddCrossings_cons, ih later, rayCrosses_of_dot_pos hx ho, rayCrosses_of_dot_pos ho hy,
      rayCrosses_of_dot_pos hx hy, chain]

end HalfPlane

/-- The ray from a point to the left of a side crosses it if the side leads upward there. -/
private theorem rayCrosses_iff_of_left (left : 0 < turn a b p) :
    rayCrosses p a b ↔ a.y ≤ p.y ∧ p.y < b.y := by
  by_cases level : decide (p.y < b.y) = decide (p.y < a.y)
  · simp only [rayCrosses, level, bne_self_eq_false, Bool.false_and, Bool.false_eq_true, false_iff]
    rintro ⟨low, high⟩
    rw [decide_eq_decide] at level
    exact low.not_gt (level.mp high)
  have apart : a.y - b.y ≠ 0 := by
    intro same
    exact level (by rw [sub_eq_zero.mp same])
  have meeting : (a.x - b.x) * (p.y - b.y) / (a.y - b.y) + b.x - p.x =
      turn a b p / (b.y - a.y) := by
    have apart' : b.y - a.y ≠ 0 := by
      rw [← neg_sub]
      exact neg_ne_zero.mpr apart
    unfold turn
    field_simp
    ring
  have side : p.x < (a.x - b.x) * (p.y - b.y) / (a.y - b.y) + b.x ↔ a.y < b.y := by
    rw [← sub_pos, meeting, div_pos_iff_of_pos_left left, sub_pos]
  by_cases up : p.y < b.y
  · have low : a.y ≤ p.y := by simpa [up] using level
    simp [rayCrosses, side, up, low, low.trans_lt up]
  · have high : p.y < a.y := by simpa [up] using level
    have down : ¬ a.y < b.y := by linarith
    simp [rayCrosses, side, up, down]

section Convex

variable (convex : IsConvexCycle polygon) (inside : ∀ s ∈ sides polygon, 0 < turn s.1 s.2 p)

include convex inside

private theorem exists_vertex_beyond {up : α} (nonzero : up ≠ 0) :
    ∃ v ∈ polygon, 0 < up * (v.y - p.y) := by
  by_contra none
  push Not at none
  obtain ⟨v, member, highest⟩ := polygon.toFinset.exists_max_image (fun q => up * q.y)
    (List.toFinset_nonempty_iff polygon |>.mpr
      (List.ne_nil_of_length_pos (by have := convex.enough; omega)))
  simp only [List.mem_toFinset] at member highest
  obtain ⟨u, before⟩ := exists_side_to member
  obtain ⟨w, after⟩ := exists_side_from member
  have bend := convex.bend before after
  have left := inside _ before
  have left' := inside _ after
  have rise := highest u (mem_of_mem_sides before).1
  have fall := highest w (mem_of_mem_sides after).2
  have beyond := none v member
  have exchange : turn u v w * (up * (p.y - v.y)) =
      turn u v p * (up * (w.y - v.y)) - turn v w p * (up * (v.y - u.y)) := by
    unfold turn
    ring
  have ahead : 0 ≤ turn u v w * (up * (p.y - v.y)) := mul_nonneg bend.le (by linarith)
  have behind : 0 ≤ turn v w p * (up * (v.y - u.y)) := mul_nonneg left'.le (by linarith)
  -- So neither side at the highest vertex rises or falls, and they do not turn.
  have level : up * (w.y - v.y) = 0 := by
    have above : 0 ≤ up * (w.y - v.y) := nonneg_of_mul_nonneg_right (by linarith) left
    linarith
  have level' : up * (v.y - u.y) = 0 := by
    rw [level, mul_zero] at exchange
    have unseparated : turn v w p * (up * (v.y - u.y)) = 0 := by linarith
    exact (mul_eq_zero.mp unseparated).resolve_left left'.ne'
  have flat : up * turn u v w = 0 := by
    unfold turn
    linear_combination (v.x - u.x) * level + (v.x - w.x) * level'
  exact bend.ne' ((mul_eq_zero.mp flat).resolve_left nonzero)

/-- Of the sides of a convex polygon, only one leads upward at the level of a point inside. -/
private theorem upward_unique {s t : Point α × Point α} (side : s ∈ sides polygon)
    (side' : t ∈ sides polygon) (crossed : rayCrosses p s.1 s.2) (crossed' : rayCrosses p t.1 t.2) :
    t = s := by
  obtain ⟨a, b⟩ := s
  obtain ⟨c, d⟩ := t
  obtain ⟨low, high⟩ := (rayCrosses_iff_of_left (inside _ side)).mp crossed
  obtain ⟨low', high'⟩ := (rayCrosses_iff_of_left (inside _ side')).mp crossed'
  obtain ⟨ha, hb⟩ := mem_of_mem_sides side
  obtain ⟨hc, hd⟩ := mem_of_mem_sides side'
  simp only at low high low' high' ha hb hc hd
  -- At one level two upward sides would each have an end of the other to their right.
  have balance : (d.y - p.y) * turn a b c + (p.y - c.y) * turn a b d +
      (b.y - p.y) * turn c d a + (p.y - a.y) * turn c d b = 0 := by
    unfold turn
    ring
  have first := mul_nonneg (sub_pos.mpr high').le (convex.turn_nonneg side hc)
  have second := mul_nonneg (sub_nonneg.mpr low') (convex.turn_nonneg side hd)
  have third := mul_nonneg (sub_pos.mpr high).le (convex.turn_nonneg side' ha)
  have fourth := mul_nonneg (sub_nonneg.mpr low) (convex.turn_nonneg side' hb)
  have flat : turn a b c = 0 := by
    have zero : (d.y - p.y) * turn a b c = 0 := by linarith
    exact (mul_eq_zero.mp zero).resolve_left (sub_pos.mpr high').ne'
  have start : c = a := by
    by_contra apart
    have apart' : c ≠ b := by
      rintro rfl
      exact (low'.trans_lt high).false
    exact (convex.turn_pos side hc apart apart').ne' flat
  rw [start] at side' ⊢
  rw [end_unique convex.nodup side side']

/-- A convex polygon contains what lies to the left of all its sides. -/
theorem pointInPolygon_of_left : pointInPolygon polygon p = true := by
  obtain ⟨high, hhigh, above⟩ := exists_vertex_beyond convex inside one_ne_zero
  obtain ⟨low, hlow, below⟩ := exists_vertex_beyond convex inside (neg_ne_zero.mpr one_ne_zero)
  obtain ⟨s, side, start, stop⟩ := exists_side_leaving (p := fun v => v.y ≤ p.y) hlow
    (by linarith) hhigh (by linarith)
  have crossed : rayCrosses p s.1 s.2 :=
    (rayCrosses_iff_of_left (inside s side)).mpr ⟨start, not_le.mp stop⟩
  rw [pointInPolygon_eq convex.enough]
  exact oddCrossings_of_unique (nodup_sides convex.nodup) side crossed fun t side' crossed' =>
    upward_unique convex inside side side' crossed crossed'

end Convex

end CapabilityAtlas.Geometry
