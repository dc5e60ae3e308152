import CapabilityAtlas.Geometry.Hull
import CapabilityAtlas.Proofs.Geometry.Cycle
import Mathlib.Algebra.Order.Field.Basic
import Mathlib.Tactic.FieldSimp
import Mathlib.Tactic.Linarith
import Mathlib.Tactic.LinearCombination
import Mathlib.Tactic.Ring

set_option autoImplicit false
set_option relaxedAutoImplicit false

/-!
Turns, computed exactly. The turns at four points are tied by one linear relation between vectors,
and read along a heading, a half of all directions, that relation says how turns follow from each
other.
-/

namespace CapabilityAtlas.Geometry

attribute [ext] Point

variable {α : Type} [Field α]

theorem turn_rotate (a b c : Point α) : turn a b c = turn b c a := by
  unfold turn
  ring

theorem turn_swap (a b c : Point α) : turn b a c = -turn a b c := by
  unfold turn
  ring

theorem turn_left_self (a b : Point α) : turn a a b = 0 := by
  unfold turn
  ring

theorem turn_right_self (a b : Point α) : turn a b b = 0 := by
  unfold turn
  ring

theorem turn_outer_self (a b : Point α) : turn a b a = 0 := by
  unfold turn
  ring

/-- The point at a multiple of the way from one point to another. -/
def along (a b : Point α) (t : α) : Point α := ⟨a.x + t * (b.x - a.x), a.y + t * (b.y - a.y)⟩

theorem turn_along (o p a b : Point α) (t : α) :
    turn o p (along a b t) = (1 - t) * turn o p a + t * turn o p b := by
  unfold turn along
  ring

theorem exists_along {a b w : Point α} (apart : a ≠ b) (flat : turn a b w = 0) :
    ∃ t, w = along a b t := by
  obtain ⟨ax, ay⟩ := a
  obtain ⟨bx, by'⟩ := b
  obtain ⟨wx, wy⟩ := w
  simp only [turn] at flat
  by_cases level : bx - ax = 0
  · have steep : by' - ay ≠ 0 := by
      intro same
      refine apart ?_
      rw [sub_eq_zero.mp level, sub_eq_zero.mp same]
    refine ⟨(wy - ay) / (by' - ay), ?_⟩
    have first : wx - ax = 0 := by
      have product : (by' - ay) * (wx - ax) = 0 := by
        rw [level] at flat
        linear_combination -flat
      exact (mul_eq_zero.mp product).resolve_left steep
    simp only [along, Point.mk.injEq]
    constructor
    · rw [level]
      linear_combination first
    · field_simp
      ring
  · refine ⟨(wx - ax) / (bx - ax), ?_⟩
    simp only [along, Point.mk.injEq]
    constructor
    · field_simp
      ring
    · field_simp
      linear_combination flat

theorem eq_of_flat_bend {a b c w : Point α} (bend : turn a b c ≠ 0) (first : turn a b w = 0)
    (second : turn b c w = 0) : w = b := by
  obtain ⟨wx, wy⟩ := w
  obtain ⟨bx, by'⟩ := b
  simp only [turn] at bend first second
  rw [Point.mk.injEq]
  constructor
  · refine sub_eq_zero.mp ((mul_eq_zero.mp ?_).resolve_left bend)
    linear_combination (c.x - bx) * first + (a.x - bx) * second
  · refine sub_eq_zero.mp ((mul_eq_zero.mp ?_).resolve_left bend)
    linear_combination (c.y - by') * first + (a.y - by') * second

section Heading

variable [LinearOrder α]

/-- A class of directions that holds sums and positive multiples, but no vector without length. -/
structure IsHeading (ahead : Point α → Prop) : Prop where
  add : ∀ {u v}, ahead u → ahead v → ahead (u.add v)
  scale : ∀ {c : α} {v}, 0 < c → ahead v → ahead (v.scale c)
  zero : ¬ ahead ⟨0, 0⟩

/-- Whether the way from one point to another leads ahead. -/
def Precedes (ahead : Point α → Prop) (p q : Point α) : Prop := ahead (q.sub p)

variable {ahead : Point α → Prop}

namespace IsHeading

variable (heading : IsHeading ahead)

include heading

private theorem add_scale {c : α} {u v : Point α} (first : ahead u) (weight : 0 ≤ c)
    (second : ahead v) :
    ahead (u.add (v.scale c)) := by
  rcases weight.eq_or_lt with rfl | positive
  · simpa [Point.add, Point.scale] using first
  · exact heading.add first (heading.scale positive second)

theorem trans {p q r : Point α} (first : Precedes ahead p q) (second : Precedes ahead q r) :
    Precedes ahead p r := by
  have sum : (q.sub p).add (r.sub q) = r.sub p := by
    simp only [Point.add, Point.sub, Point.mk.injEq]
    constructor
    · ring
    · ring
  rw [Precedes, ← sum]
  exact heading.add first second

private theorem irrefl (p : Point α) : ¬ Precedes ahead p p := by
  intro forward
  have still : p.sub p = ⟨0, 0⟩ := by simp [Point.sub]
  exact heading.zero (still ▸ forward)

theorem ne {p q : Point α} (forward : Precedes ahead p q) : p ≠ q := by
  rintro rfl
  exact heading.irrefl p forward

theorem asymm {p q : Point α} (forward : Precedes ahead p q) : ¬ Precedes ahead q p :=
  fun back => heading.irrefl p (heading.trans forward back)

variable [IsStrictOrderedRing α]

theorem pos_of_scale {c : α} {v : Point α} (forward : ahead v) (multiple : ahead (v.scale c)) :
    0 < c := by
  by_contra not
  rcases (not_lt.mp not).eq_or_lt with same | negative
  · refine heading.zero ?_
    simpa [Point.scale, same] using multiple
  · -- A negative multiple and its opposite would add up to nothing.
    have back := heading.add multiple (heading.scale (neg_pos.mpr negative) forward)
    have cancel : (v.scale c).add (v.scale (-c)) = ⟨0, 0⟩ := by
      simp [Point.add, Point.scale]
    exact heading.zero (cancel ▸ back)

variable {a b p q z : Point α}

/-- What lies before the end of a segment and not to its right lies to the left of a way that turns
left there. -/
theorem turn_pos_before (ab : Precedes ahead a b) (bp : Precedes ahead b p)
    (qb : Precedes ahead q b) (side : 0 ≤ turn a b q) (bend : 0 < turn a b p) :
    0 < turn b p q := by
  have exchange : (b.sub a).scale (turn b p q) =
      ((b.sub q).scale (turn a b p)).add ((p.sub b).scale (turn a b q)) := by
    simp only [Point.add, Point.sub, Point.scale, turn, Point.mk.injEq]
    constructor
    · ring
    · ring
  refine heading.pos_of_scale ab ?_
  rw [exchange]
  exact heading.add_scale (heading.scale bend qb) side bp

theorem turn_nonneg_after (ab : Precedes ahead a b) (ap : Precedes ahead a p)
    (aq : q = a ∨ Precedes ahead a q) (side : 0 ≤ turn a b q) (bend : turn a b p ≤ 0) :
    0 ≤ turn a p q := by
  rcases aq with rfl | aq
  · rw [turn_outer_self]
  by_contra right
  have balance : (((b.sub a).scale (-turn a p q)).add ((q.sub a).scale (-turn a b p))).add
      ((p.sub a).scale (turn a b q)) = ⟨0, 0⟩ := by
    simp only [Point.add, Point.sub, Point.scale, turn, Point.mk.injEq]
    constructor
    · ring
    · ring
  have back := heading.scale (neg_pos.mpr (not_le.mp right)) ab
  have sum := heading.add_scale (heading.add_scale back (neg_nonneg.mpr bend) aq) side ap
  exact heading.zero (balance ▸ sum)

/-- Two left turns on the way ahead make a left turn of their ends. -/
theorem turn_pos_skip (za : Precedes ahead z a) (ab : Precedes ahead a b)
    (bp : Precedes ahead b p) (first : 0 < turn z a b) (second : 0 < turn a b p) :
    0 < turn z a p := by
  have exchange : (b.sub a).scale (turn z a p) =
      ((p.sub a).scale (turn z a b)).add ((a.sub z).scale (turn a b p)) := by
    simp only [Point.add, Point.sub, Point.scale, turn, Point.mk.injEq]
    constructor
    · ring
    · ring
  refine heading.pos_of_scale ab ?_
  rw [exchange]
  exact heading.add (heading.scale first (heading.trans ab bp)) (heading.scale second za)

/-- Where two ways from the same side meet in a line, what lies to the right of neither is on it. -/
theorem flat_of_flat_peak {u v w : Point α} (uv : Precedes ahead u v) (wv : Precedes ahead w v)
    (first : 0 ≤ turn u v q) (second : 0 ≤ turn v w q) (flat : turn u v w = 0) :
    turn u v q = 0 := by
  by_contra bent
  have balance : ((v.sub w).scale (turn u v q)).add ((v.sub u).scale (turn v w q)) = ⟨0, 0⟩ := by
    simp only [Point.add, Point.sub, Point.scale, turn, Point.mk.injEq] at flat ⊢
    constructor
    · linear_combination (v.x - q.x) * flat
    · linear_combination (v.y - q.y) * flat
  have sum := heading.add_scale (heading.scale (first.lt_of_ne' bent) wv) second uv
  exact heading.zero (balance ▸ sum)

/-- Where two ways meet from opposite sides, neither with the start of the other to its right, what
lies to the left of one lies to the right of the other. -/
theorem turn_neg_against {u v w : Point α} (uv : Precedes ahead u v) (vw : Precedes ahead v w)
    (first : 0 ≤ turn u v w) (second : 0 ≤ turn w v u) (bend : 0 < turn u v q) :
    turn w v q < 0 := by
  by_contra left
  have opposite : turn w v u = -turn u v w := by rw [turn_rotate, turn_swap]
  have flat : turn u v w = 0 := by linarith
  have balance : ((w.sub v).scale (turn u v q)).add ((v.sub u).scale (turn w v q)) = ⟨0, 0⟩ := by
    simp only [Point.add, Point.sub, Point.scale, turn, Point.mk.injEq] at flat ⊢
    constructor
    · linear_combination (q.x - v.x) * flat
    · linear_combination (q.y - v.y) * flat
  have sum := heading.add_scale (heading.scale bend vw) (not_lt.mp left) uv
  exact heading.zero (balance ▸ sum)

end IsHeading

variable [IsStrictOrderedRing α]

def rightward (v : Point α) : Prop := 0 < v.x ∨ v.x = 0 ∧ 0 < v.y

def leftward (v : Point α) : Prop := rightward (v.scale (-1))

theorem isHeading_rightward : IsHeading (rightward (α := α)) := by
  constructor
  · intro u v first second
    simp only [rightward, Point.add] at first second ⊢
    rcases first with right | ⟨level, up⟩
    · rcases second with right' | ⟨level', -⟩
      · exact Or.inl (add_pos right right')
      · exact Or.inl (by rwa [level', add_zero])
    · rcases second with right' | ⟨level', up'⟩
      · exact Or.inl (by rwa [level, zero_add])
      · exact Or.inr ⟨by rw [level, level', add_zero], add_pos up up'⟩
  · intro c v positive ahead
    simp only [rightward, Point.scale] at ahead ⊢
    rcases ahead with right | ⟨level, up⟩
    · exact Or.inl (mul_pos positive right)
    · exact Or.inr ⟨by rw [level, mul_zero], mul_pos positive up⟩
  · simp [rightward]

omit [IsStrictOrderedRing α] in
theorem precedes_leftward_iff {a b : Point α} :
    Precedes leftward a b ↔ Precedes rightward b a := by
  have back : (b.sub a).scale (-1) = a.sub b := by
    ext
    · simp [Point.sub, Point.scale]
    · simp [Point.sub, Point.scale]
  rw [Precedes, leftward, back]
  rfl

theorem isHeading_leftward : IsHeading (leftward (α := α)) := by
  have right := isHeading_rightward (α := α)
  constructor
  · intro u v first second
    have sum : (u.add v).scale (-1) = (u.scale (-1)).add (v.scale (-1)) := by
      simp only [Point.add, Point.scale, mul_add]
    rw [leftward, sum]
    exact right.add first second
  · intro c v positive ahead
    have multiple : (v.scale c).scale (-1) = (v.scale (-1)).scale c := by
      simp only [Point.scale, mul_left_comm]
    rw [leftward, multiple]
    exact right.scale positive ahead
  · simp [leftward, rightward, Point.scale]

end Heading

end CapabilityAtlas.Geometry

/-!
Convex polygons. A polygon that goes around once is convex as soon as it turns left at every vertex
and has no vertex to the right of a side: a vertex in the middle of a side would have to pass
straight on.
-/

namespace CapabilityAtlas.Geometry

section Decidable

variable {α : Type} [Sub α] [Mul α] [NatCast α] [LT α] [DecidableLT α]

/-- Whether every vertex of a polygon lies to the left of each side that it does not end. -/
structure IsConvex [DecidableEq α] (polygon : List (Point α)) : Prop where
  enough : 3 ≤ polygon.length
  left : ∀ side ∈ sides polygon, ∀ p ∈ polygon, p ≠ side.1 → p ≠ side.2 →
    ((0 : Nat) : α) < turn side.1 side.2 p

instance [DecidableEq α] (polygon : List (Point α)) : Decidable (IsConvex polygon) :=
  decidable_of_iff (3 ≤ polygon.length ∧ ∀ side ∈ sides polygon, ∀ p ∈ polygon,
      p ≠ side.1 → p ≠ side.2 → ((0 : Nat) : α) < turn side.1 side.2 p)
    ⟨fun both => ⟨both.1, both.2⟩, fun convex => ⟨convex.enough, convex.left⟩⟩

end Decidable

variable {α : Type} [Field α] [LinearOrder α] {polygon : List (Point α)} {a b c p : Point α}

/-- A convex polygon that comes to each of its vertices once. -/
structure IsConvexCycle (polygon : List (Point α)) : Prop extends IsConvex polygon where
  nodup : polygon.Nodup

namespace IsConvexCycle

variable (convex : IsConvexCycle polygon)

include convex

theorem turn_pos (side : (a, b) ∈ sides polygon) (member : p ∈ polygon) (start : p ≠ a)
    (stop : p ≠ b) : 0 < turn a b p := by
  simpa using convex.left (a, b) side p member start stop

theorem turn_nonneg (side : (a, b) ∈ sides polygon) (member : p ∈ polygon) : 0 ≤ turn a b p := by
  by_cases start : p = a
  · rw [start, turn_outer_self]
  · by_cases stop : p = b
    · rw [stop, turn_right_self]
    · exact (convex.turn_pos side member start stop).le

theorem bend (before : (a, b) ∈ sides polygon) (after : (b, c) ∈ sides polygon) :
    0 < turn a b c := by
  obtain ⟨-, apart, apart'⟩ := ne_of_sides convex.nodup convex.enough before after
  exact convex.turn_pos before (mem_of_mem_sides after).2 apart'.symm apart.symm

end IsConvexCycle

variable [IsStrictOrderedRing α]

theorem isConvexCycle_of_bends (enough : 3 ≤ polygon.length) (nodup : polygon.Nodup)
    (weak : ∀ s ∈ sides polygon, ∀ p ∈ polygon, 0 ≤ turn s.1 s.2 p)
    (bends : ∀ a b c, (a, b) ∈ sides polygon → (b, c) ∈ sides polygon → 0 < turn a b c) :
    IsConvexCycle polygon := by
  suffices left : ∀ s ∈ sides polygon, ∀ w ∈ polygon, w ≠ s.1 → w ≠ s.2 → 0 < turn s.1 s.2 w from
    ⟨⟨enough, by simpa using left⟩, nodup⟩
  rintro ⟨a, b⟩ side w member start stop
  by_contra right
  have flat : turn a b w = 0 := le_antisymm (not_lt.mp right) (weak _ side w member)
  obtain ⟨ha, hb⟩ := mem_of_mem_sides side
  obtain ⟨z, before⟩ := exists_side_to ha
  obtain ⟨c, after⟩ := exists_side_from hb
  obtain ⟨t, inside⟩ := exists_along (ne_of_sides nodup enough before side).2.1 flat
  -- The neighboring sides keep the vertex strictly between the ends of the side.
  have below : 0 ≤ t := by
    have left := weak _ before w member
    rw [inside, turn_along, turn_right_self, mul_zero, zero_add] at left
    exact nonneg_of_mul_nonneg_left left (bends z a b before side)
  have above : 0 ≤ 1 - t := by
    have left := weak _ after w member
    rw [inside, turn_along, turn_outer_self, mul_zero, add_zero, ← turn_rotate] at left
    exact nonneg_of_mul_nonneg_left left (bends a b c side after)
  have positive : 0 < t := by
    refine below.lt_of_ne ?_
    rintro rfl
    exact start (by simp [inside, along])
  have positive' : 0 < 1 - t := by
    refine above.lt_of_ne fun zero => stop ?_
    obtain rfl : t = 1 := by linarith
    simp [inside, along]
  -- A side at the vertex has both ends to its left, and so both are in line with it.
  have flatEnds : ∀ u v, (u, v) ∈ sides polygon → turn u v w = 0 → turn u v a = 0 := by
    intro u v side' ending
    have first := mul_nonneg positive'.le (weak _ side' a ha)
    have second := mul_nonneg positive.le (weak _ side' b hb)
    rw [inside, turn_along] at ending
    have vanishes : (1 - t) * turn u v a = 0 := by linarith
    exact (mul_eq_zero.mp vanishes).resolve_left positive'.ne'
  obtain ⟨e, into⟩ := exists_side_to member
  obtain ⟨d, out⟩ := exists_side_from member
  exact start (eq_of_flat_bend (bends e w d into out).ne'
    (flatEnds e w into (turn_right_self e w)) (flatEnds w d out (turn_outer_self w d))).symm

omit [IsStrictOrderedRing α] in
theorem isConvexCycle_triangle (bend : 0 < turn a b c) : IsConvexCycle [a, b, c] := by
  have bend' : 0 < turn b c a := turn_rotate a b c ▸ bend
  have bend'' : 0 < turn c a b := turn_rotate b c a ▸ bend'
  refine ⟨⟨le_refl 3, ?_⟩, ?_⟩
  · have listed : sides [a, b, c] = [(a, b), (b, c), (c, a)] := rfl
    rw [listed]
    simp [bend, bend', bend'']
  · have first : a ≠ b := by
      rintro rfl
      exact bend.ne' (turn_left_self a c)
    have second : b ≠ c := by
      rintro rfl
      exact bend'.ne' (turn_left_self b a)
    have third : c ≠ a := by
      rintro rfl
      exact bend''.ne' (turn_left_self c b)
    simp [first, second, third.symm]

end CapabilityAtlas.Geometry
