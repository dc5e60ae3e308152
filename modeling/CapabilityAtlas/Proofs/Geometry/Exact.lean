import CapabilityAtlas.Geometry.Hull
import CapabilityAtlas.Proofs.Geometry.Convex
import Mathlib.Analysis.SpecialFunctions.Complex.Arg
import Mathlib.Analysis.SpecialFunctions.Sqrt

set_option autoImplicit false
set_option relaxedAutoImplicit false

/-!
How far a corner reaches when its sides move outward by one unit. The corner is given by the normals
of its two sides, and it reaches to the normals and to the point where the moved sides meet. Corners
whose normals lie on different sides of a line do not reach beyond each other.
-/

namespace CapabilityAtlas.Geometry

variable {α : Type} [Field α]

/-- The area between two vectors, positive if the second one is to the left of the first. -/
def Point.cross (u v : Point α) : α := u.x * v.y - u.y * v.x

/-- The meeting point of the lines that two unit vectors touch. -/
def meeting (n n' : Point α) : Point α := (n.add n').divide (1 + n.dot n')

theorem dot_comm (u v : Point α) : u.dot v = v.dot u := by
  simp only [Point.dot]
  ring

theorem dot_add_left (u v t : Point α) : (u.add v).dot t = u.dot t + v.dot t := by
  simp only [Point.dot, Point.add]
  ring

theorem dot_moved_sub (m u v k : Point α) (d : α) :
    m.dot ((u.add (k.scale d)).sub v) = m.dot (u.sub v) + d * m.dot k := by
  simp only [Point.dot, Point.add, Point.sub, Point.scale]
  ring

private theorem dot_opposite (u v : Point α) : (u.scale (-1)).dot v = -u.dot v := by
  simp only [Point.dot, Point.scale]
  ring

theorem cross_self (u : Point α) : u.cross u = 0 := by
  simp only [Point.cross]
  ring

theorem turn_moved {n k m v w : Point α} {long d : α} (unit : n.dot n = 1)
    (way : w.sub v = ⟨-(long * n.y), long * n.x⟩) (start : n.dot k = 1) (stop : n.dot m = 1)
    (q : Point α) :
    turn (v.add (k.scale d)) (w.add (m.scale d)) q =
      (long + d * (n.cross m - n.cross k)) * (d - n.dot (q.sub v)) := by
  obtain ⟨first, second⟩ := Point.mk.inj way
  simp only [Point.dot] at unit start stop
  -- Both ends lie on the line that the normal touches, so their difference has no part along it.
  have across : m.x - k.x = -((n.cross m - n.cross k) * n.y) := by
    simp only [Point.cross]
    linear_combination (k.x - m.x) * unit + n.x * (stop - start)
  have across' : m.y - k.y = (n.cross m - n.cross k) * n.x := by
    simp only [Point.cross]
    linear_combination (k.y - m.y) * unit + n.y * (stop - start)
  generalize n.cross m - n.cross k = c at across across'
  simp only [turn, Point.add, Point.scale, Point.dot, Point.sub] at first second ⊢
  linear_combination (q.y - v.y - d * k.y) * (first + d * across) -
    (q.x - v.x - d * k.x) * (second + d * across') + (long + d * c) * d * start

variable [LinearOrder α]

structure IsBend (n n' : Point α) : Prop where
  unit : n.dot n = 1
  unit' : n'.dot n' = 1
  left : 0 < n.cross n'

/-- Whether a corner reaches to a point. -/
def Reaches (n n' o : Point α) : Prop := o = n ∨ o = n' ∨ o = meeting n n'

variable {n n' o : Point α}

namespace IsBend

variable (bend : IsBend n n')

include bend

private theorem dot_sq_add_cross_sq : n.dot n' ^ 2 + n.cross n' ^ 2 = 1 := by
  have product : (n.dot n) * (n'.dot n') = n.dot n' ^ 2 + n.cross n' ^ 2 := by
    simp only [Point.dot, Point.cross]
    ring
  rw [← product, bend.unit, bend.unit', one_mul]

variable [IsStrictOrderedRing α]

private theorem abs_dot_lt : |n.dot n'| < 1 := by
  rw [← sq_lt_one_iff_abs_lt_one]
  have area := pow_pos bend.left 2
  have whole := bend.dot_sq_add_cross_sq
  linarith

theorem one_add_pos : 0 < 1 + n.dot n' := by
  have bounds := abs_lt.mp bend.abs_dot_lt
  linarith

theorem dot_lt_one : n.dot n' < 1 := (abs_lt.mp bend.abs_dot_lt).2

theorem dot_meeting (t : Point α) :
    t.dot (meeting n n') * (1 + n.dot n') = t.dot n + t.dot n' := by
  have nonzero := bend.one_add_pos.ne'
  simp only [meeting, Point.divide, Point.add, Point.dot] at nonzero ⊢
  field_simp
  ring

private theorem cross_meeting (t : Point α) :
    t.cross (meeting n n') * (1 + n.dot n') = t.cross n + t.cross n' := by
  have nonzero := bend.one_add_pos.ne'
  simp only [meeting, Point.divide, Point.add, Point.dot, Point.cross] at nonzero ⊢
  field_simp
  ring

theorem left_dot_meeting : n.dot (meeting n n') = 1 := by
  have product := bend.dot_meeting n
  rw [bend.unit] at product
  exact mul_right_cancel₀ bend.one_add_pos.ne' (by rw [product, one_mul])

theorem right_dot_meeting : n'.dot (meeting n n') = 1 := by
  have product := bend.dot_meeting n'
  rw [bend.unit', dot_comm n' n] at product
  exact mul_right_cancel₀ bend.one_add_pos.ne' (by rw [product, one_mul, add_comm])

private theorem meeting_dot_meeting :
    (meeting n n').dot (meeting n n') * (1 + n.dot n') = 2 := by
  rw [bend.dot_meeting, dot_comm _ n, dot_comm _ n', bend.left_dot_meeting,
    bend.right_dot_meeting]
  norm_num

theorem turn_bevel (d : α) (v q : Point α) :
    turn (v.add (n.scale d)) (v.add (n'.scale d)) q * (1 + n.dot n') =
      d * n.cross n' * (d * (1 + n.dot n') - (n.add n').dot (q.sub v)) := by
  have unit := bend.unit
  have unit' := bend.unit'
  simp only [Point.dot] at unit unit'
  have across : (n'.x - n.x) * (1 + n.dot n') = -(n.cross n' * (n.y + n'.y)) := by
    simp only [Point.cross, Point.dot]
    linear_combination n.x * unit' - n'.x * unit
  have across' : (n'.y - n.y) * (1 + n.dot n') = n.cross n' * (n.x + n'.x) := by
    simp only [Point.cross, Point.dot]
    linear_combination n.y * unit' - n'.y * unit
  generalize n.cross n' = k at across across'
  simp only [turn, Point.add, Point.scale, Point.dot, Point.sub] at across across' ⊢
  linear_combination d * (q.y - v.y - d * n.y) * across - d * (q.x - v.x - d * n.x) * across' +
    d ^ 2 * k * unit

theorem left_cross_meeting : 0 ≤ n.cross (meeting n n') := by
  have double := bend.cross_meeting n
  rw [cross_self, zero_add] at double
  exact nonneg_of_mul_nonneg_left (double ▸ bend.left.le) bend.one_add_pos

theorem right_cross_meeting : n'.cross (meeting n n') ≤ 0 := by
  have double := bend.cross_meeting n'
  have opposite : n'.cross n = -n.cross n' := by
    simp only [Point.cross]
    ring
  rw [cross_self, add_zero, opposite] at double
  refine nonpos_of_mul_nonpos_left ?_ bend.one_add_pos
  rw [double]
  exact neg_nonpos.mpr bend.left.le

theorem right_dot_le (reach : Reaches n n' o) : n'.dot o ≤ 1 := by
  rcases reach with rfl | rfl | rfl
  · rw [dot_comm]
    exact bend.dot_lt_one.le
  · exact bend.unit'.le
  · exact bend.right_dot_meeting.le

variable {t : Point α}

theorem dot_nonneg (first : 0 ≤ t.dot n) (second : 0 ≤ t.dot n') (reach : Reaches n n' o) :
    0 ≤ t.dot o := by
  rcases reach with rfl | rfl | rfl
  · exact first
  · exact second
  · refine nonneg_of_mul_nonneg_left ?_ bend.one_add_pos
    rw [bend.dot_meeting]
    exact add_nonneg first second

theorem dot_nonpos (first : t.dot n ≤ 0) (second : t.dot n' ≤ 0) (reach : Reaches n n' o) :
    t.dot o ≤ 0 := by
  have opposite := bend.dot_nonneg (t := t.scale (-1)) (by rwa [dot_opposite, neg_nonneg])
    (by rwa [dot_opposite, neg_nonneg]) reach
  rwa [dot_opposite, neg_nonneg] at opposite

/-- Across a direction to which both normals lean, a corner reaches no further than a unit. -/
private theorem cross_sq_le (positive : 0 < t.dot t) (first : 0 ≤ t.dot n) (second : 0 ≤ t.dot n')
    (reach : Reaches n n' o) : t.cross o ^ 2 ≤ t.dot t := by
  have split : ∀ m : Point α, m.dot m = 1 → t.cross m ^ 2 + t.dot m ^ 2 = t.dot t := by
    intro m unit
    have product : t.cross m ^ 2 + t.dot m ^ 2 = t.dot t * m.dot m := by
      simp only [Point.dot, Point.cross]
      ring
    rw [product, unit, mul_one]
  have unit := split n bend.unit
  have unit' := split n' bend.unit'
  rcases reach with rfl | rfl | rfl
  · have rest := sq_nonneg (t.dot o)
    linarith
  · have rest := sq_nonneg (t.dot o)
    linarith
  · -- Since both normals lean to the same side, what they have along the direction only helps.
    have double := bend.cross_meeting t
    have exchange : t.dot t * (1 + n.dot n') =
        t.dot t + t.cross n * t.cross n' + t.dot n * t.dot n' := by
      simp only [Point.dot, Point.cross]
      ring
    have lean : 0 ≤ t.dot n * t.dot n' := mul_nonneg first second
    have wide : 0 ≤ t.dot t + t.cross n * t.cross n' := by
      have squares := sq_nonneg (t.cross n + t.cross n')
      have rest := sq_nonneg (t.dot n)
      have rest' := sq_nonneg (t.dot n')
      linarith
    have bound : t.dot t * (t.cross n + t.cross n') ^ 2 ≤
        (t.dot t * (1 + n.dot n')) ^ 2 := by
      have product : (t.dot t + t.cross n * t.cross n') ^ 2 -
          t.dot t * (t.cross n + t.cross n') ^ 2 = (t.dot n * t.dot n') ^ 2 := by
        linear_combination (t.cross n' ^ 2 - t.dot t) * unit - t.dot n ^ 2 * unit'
      have rest := sq_nonneg (t.dot n * t.dot n')
      have square : (t.dot t + t.cross n * t.cross n') ^ 2 ≤ (t.dot t * (1 + n.dot n')) ^ 2 := by
        rw [exchange]
        exact pow_le_pow_left₀ wide (le_add_of_nonneg_right lean) 2
      linarith
    rw [← double] at bound
    have factor : 0 < t.dot t * (1 + n.dot n') ^ 2 := mul_pos positive (pow_pos bend.one_add_pos 2)
    refine le_of_mul_le_mul_left ?_ factor
    linarith

end IsBend

/-- Two corners on different sides of a line do not reach beyond each other. -/
theorem dot_le_one_of_apart [IsStrictOrderedRing α] {m m' r t : Point α} (bend : IsBend n n')
    (bend' : IsBend m m') (positive : 0 < t.dot t) (first : 0 ≤ t.dot n) (second : 0 ≤ t.dot n')
    (third : t.dot m ≤ 0) (fourth : t.dot m' ≤ 0) (reach : Reaches n n' o)
    (reach' : Reaches m m' r) : o.dot r ≤ 1 := by
  have here := bend.dot_nonneg first second reach
  have wide := bend.cross_sq_le positive first second reach
  have same : (t.scale (-1)).dot (t.scale (-1)) = t.dot t := by
    simp only [Point.dot, Point.scale]
    ring
  have there := bend'.dot_nonpos third fourth reach'
  have wide' := bend'.cross_sq_le (same ▸ positive) (by rwa [dot_opposite, neg_nonneg])
    (by rwa [dot_opposite, neg_nonneg]) reach'
  have crossed : (t.scale (-1)).cross r ^ 2 = t.cross r ^ 2 := by
    simp only [Point.cross, Point.scale]
    ring
  rw [crossed, same] at wide'
  have exchange : t.dot t * o.dot r = t.dot o * t.dot r + t.cross o * t.cross r := by
    simp only [Point.dot, Point.cross]
    ring
  -- Along the direction they point apart, and across it neither is longer than a unit.
  have along : t.dot o * t.dot r ≤ 0 := mul_nonpos_of_nonneg_of_nonpos here there
  have across := sq_nonneg (t.cross o - t.cross r)
  refine le_of_mul_le_mul_left ?_ positive
  linarith

end CapabilityAtlas.Geometry

/-!
Lengths and normals over the reals. There the normal of a side is a unit vector, and a miter is too
long exactly if the sides meet at a very small angle.
-/

namespace CapabilityAtlas

noncomputable instance exactLength : Length ℝ := ⟨fun x y => √(x * x + y * y)⟩

noncomputable instance exactCircular : Circular ℝ where
  sin := Real.sin
  cos := Real.cos
  angle y x := Complex.arg ⟨x, y⟩
  pi := Real.pi

namespace Geometry

theorem Point.length_eq (v : Point ℝ) : v.length = √(v.dot v) := rfl

private theorem Point.dot_self_nonneg (v : Point ℝ) : 0 ≤ v.dot v :=
  add_nonneg (mul_self_nonneg v.x) (mul_self_nonneg v.y)

theorem Point.length_nonneg (v : Point ℝ) : 0 ≤ v.length := Real.sqrt_nonneg _

private theorem Point.length_mul_length (v : Point ℝ) : v.length * v.length = v.dot v :=
  Real.mul_self_sqrt v.dot_self_nonneg

theorem Point.length_scale {r : ℝ} (nonneg : 0 ≤ r) (v : Point ℝ) :
    (v.scale r).length = r * v.length := by
  have square : (v.scale r).dot (v.scale r) = r ^ 2 * v.dot v := by
    simp only [Point.dot, Point.scale]
    ring
  rw [Point.length_eq, square, Real.sqrt_mul (sq_nonneg _), Real.sqrt_sq nonneg, Point.length_eq]

theorem Point.dot_le_length_mul_length (m v : Point ℝ) : m.dot v ≤ m.length * v.length := by
  rw [Point.length_eq, Point.length_eq, ← Real.sqrt_mul m.dot_self_nonneg]
  refine Real.le_sqrt_of_sq_le ?_
  have product : m.dot v ^ 2 + m.cross v ^ 2 = m.dot m * v.dot v := by
    simp only [Point.dot, Point.cross]
    ring
  have rest := sq_nonneg (m.cross v)
  linarith

section Normal

variable {a b c : Point ℝ}

theorem dot_sub_self_pos (apart : a ≠ b) : 0 < (b.sub a).dot (b.sub a) := by
  refine (Point.dot_self_nonneg _).lt_of_ne' fun zero => apart ?_
  obtain ⟨first, second⟩ := (add_eq_zero_iff_of_nonneg (mul_self_nonneg _)
    (mul_self_nonneg _)).mp zero
  ext
  · exact (sub_eq_zero.mp (mul_self_eq_zero.mp first)).symm
  · exact (sub_eq_zero.mp (mul_self_eq_zero.mp second)).symm

theorem length_sub_pos (apart : a ≠ b) : 0 < (b.sub a).length := by
  rw [Point.length_eq]
  exact Real.sqrt_pos.mpr (dot_sub_self_pos apart)

theorem sideLength_pos (apart : a ≠ b) : 0 < sideLength (b.sub a) := by
  unfold sideLength
  split
  · simp
  · exact length_sub_pos apart

private theorem sideLength_mul_sideLength (apart : a ≠ b) :
    sideLength (b.sub a) * sideLength (b.sub a) = (b.sub a).dot (b.sub a) := by
  have long := length_sub_pos apart
  have extended : ¬ Scalar.same (b.sub a).length ((0 : Nat) : ℝ) := by
    simp [Scalar.same, long]
  rw [sideLength, if_neg extended, Point.length_mul_length]

theorem sideLength_eq {r : ℝ} (positive : 0 < r) (square : (b.sub a).dot (b.sub a) = r * r) :
    sideLength (b.sub a) = r := by
  have apart : a ≠ b := by
    rintro rfl
    have zero : (a.sub a).dot (a.sub a) = 0 := by
      simp only [Point.sub, Point.dot]
      ring
    exact (mul_pos positive positive).ne' (square.symm.trans zero)
  rw [← sideLength_mul_sideLength apart] at square
  exact (mul_self_inj_of_nonneg (sideLength_pos apart).le positive.le).mp square

theorem normal_dot_normal (apart : a ≠ b) :
    (normal (b.sub a)).dot (normal (b.sub a)) = 1 := by
  have square := sideLength_mul_sideLength apart
  have nonzero := (sideLength_pos apart).ne'
  simp only [normal, Point.divide, Point.dot] at square ⊢
  field_simp
  linarith

theorem normal_dot_sub (a b p q : Point ℝ) :
    (normal (b.sub a)).dot (q.sub p) = (turn a b p - turn a b q) / sideLength (b.sub a) := by
  simp only [normal, Point.divide, Point.dot, Point.sub, turn]
  ring

theorem sub_eq_of_normal (apart : a ≠ b) :
    b.sub a = ⟨-(sideLength (b.sub a) * (normal (b.sub a)).y),
      sideLength (b.sub a) * (normal (b.sub a)).x⟩ := by
  have nonzero := (sideLength_pos apart).ne'
  ext
  · simp only [normal, Point.divide]
    field_simp
  · simp only [normal, Point.divide]
    field_simp

theorem isBend_normal (bend : 0 < turn a b c) :
    IsBend (normal (b.sub a)) (normal (c.sub b)) := by
  have first : a ≠ b := by
    rintro rfl
    exact bend.ne' (turn_left_self a c)
  have second : b ≠ c := by
    rintro rfl
    exact bend.ne' (turn_right_self a b)
  refine ⟨normal_dot_normal first, normal_dot_normal second, ?_⟩
  have turned : (normal (b.sub a)).cross (normal (c.sub b)) =
      turn a b c / (sideLength (b.sub a) * sideLength (c.sub b)) := by
    have nonzero := (sideLength_pos first).ne'
    have nonzero' := (sideLength_pos second).ne'
    simp only [normal, Point.divide, Point.cross, turn]
    field_simp
    simp only [Point.sub]
    ring
  rw [turned]
  exact div_pos bend (mul_pos (sideLength_pos first) (sideLength_pos second))

end Normal

/-- A miter is too long exactly if the normals are almost opposite. -/
theorem miterLimit_lt_length_iff {n n' : Point ℝ} (bend : IsBend n n') :
    miterLimit < (meeting n n').length ↔ 1 + n.dot n' < 1 / 8 := by
  have positive := bend.one_add_pos
  have square := bend.meeting_dot_meeting
  rw [← Point.length_mul_length] at square
  rw [miterLimit, Nat.cast_ofNat]
  constructor
  · intro above
    have wide := mul_lt_mul'' above above (by norm_num) (by norm_num)
    have product := mul_lt_mul_of_pos_right wide positive
    linarith
  · intro small
    by_contra below
    have narrow := mul_self_le_mul_self (meeting n n').length_nonneg (not_lt.mp below)
    have product := mul_le_mul_of_nonneg_right narrow positive.le
    linarith

/-- Two normals are mitered unless they are almost opposite. -/
theorem miter?_eq {n n' : Point ℝ} (bend : IsBend n n') :
    miter? n n' = if 1 + n.dot n' < 1 / 8 then none else some (meeting n n') := by
  have long := miterLimit_lt_length_iff bend
  have defined : 1 / 1000000000 < 1 + n.dot n' ∨ 1 + n.dot n' < 1 / 8 := by
    by_contra neither
    obtain ⟨first, second⟩ := not_or.mp neither
    linarith
  change (if Scalar.ratio 1 1000000000 < ((1 : Nat) : ℝ) + n.dot n' then
    if miterLimit < (((n.add n').divide (((1 : Nat) : ℝ) + n.dot n')).length) then none
    else some ((n.add n').divide (((1 : Nat) : ℝ) + n.dot n')) else none) = _
  simp only [Scalar.ratio, Nat.cast_one, Nat.cast_ofNat]
  change (if 1 / 1000000000 < 1 + n.dot n' then
    if miterLimit < (meeting n n').length then none else some (meeting n n') else none) = _
  by_cases sharp : 1 + n.dot n' < 1 / 8
  · rw [if_pos sharp, if_pos (long.mpr sharp), ite_self]
  · rw [if_neg sharp, if_pos (defined.resolve_right sharp), if_neg (long.not.mpr sharp)]

end Geometry

end CapabilityAtlas
