import CapabilityAtlas.Proofs.Geometry.Convex
import Mathlib.Analysis.Convex.Combination
import Mathlib.Analysis.Convex.Extreme

set_option autoImplicit false
set_option relaxedAutoImplicit false

/-!
The plane as a vector space. Points span the region of all that lies between them, and the region
that a convex polygon spans is what has none of its sides to the right: cut along the diagonals from
one vertex it falls into triangles.
-/

namespace CapabilityAtlas

namespace Geometry.Point

variable {α : Type} [Field α]

instance : Zero (Point α) := ⟨⟨0, 0⟩⟩

instance : Add (Point α) := ⟨add⟩

instance : Neg (Point α) := ⟨scale (-1)⟩

instance : Sub (Point α) := ⟨sub⟩

instance : AddCommGroup (Point α) where
  nsmul := nsmulRec
  zsmul := zsmulRec
  add_assoc _ _ _ := Point.ext (add_assoc ..) (add_assoc ..)
  zero_add _ := Point.ext (zero_add _) (zero_add _)
  add_zero _ := Point.ext (add_zero _) (add_zero _)
  add_comm _ _ := Point.ext (add_comm ..) (add_comm ..)
  neg_add_cancel p := by
    apply Point.ext
    · show -1 * p.x + p.x = 0
      ring
    · show -1 * p.y + p.y = 0
      ring
  sub_eq_add_neg p q := by
    apply Point.ext
    · show p.x - q.x = p.x + -1 * q.x
      ring
    · show p.y - q.y = p.y + -1 * q.y
      ring

instance : Module α (Point α) where
  smul := scale
  one_smul _ := Point.ext (one_mul _) (one_mul _)
  mul_smul _ _ _ := Point.ext (mul_assoc ..) (mul_assoc ..)
  smul_zero _ := Point.ext (mul_zero _) (mul_zero _)
  smul_add _ _ _ := Point.ext (mul_add ..) (mul_add ..)
  add_smul _ _ _ := Point.ext (add_mul ..) (add_mul ..)
  zero_smul _ := Point.ext (zero_mul _) (zero_mul _)

@[simp] theorem add_x (p q : Point α) : (p + q).x = p.x + q.x := rfl

@[simp] theorem add_y (p q : Point α) : (p + q).y = p.y + q.y := rfl

@[simp] theorem smul_x (c : α) (p : Point α) : (c • p).x = c * p.x := rfl

@[simp] theorem smul_y (c : α) (p : Point α) : (c • p).y = c * p.y := rfl

end Geometry.Point

/-- The region of all that lies between some points. -/
def Plane.filled {α : Type} [Field α] [LinearOrder α] (points : List (Geometry.Point α)) :
    Set (Geometry.Point α) :=
  convexHull α {p | p ∈ points}

namespace Geometry

open Plane (filled)

variable {α : Type} [Field α]

theorem turn_combination {u v : α} (whole : u + v = 1) (a b p q : Point α) :
    turn a b (u • p + v • q) = u * turn a b p + v * turn a b q := by
  obtain rfl : u = 1 - v := eq_sub_of_add_eq whole
  simp only [turn, Point.add_x, Point.add_y, Point.smul_x, Point.smul_y]
  ring

theorem along_eq (a b : Point α) (t : α) : along a b t = (1 - t) • a + t • b := by
  ext
  · show a.x + t * (b.x - a.x) = (1 - t) * a.x + t * b.x
    ring
  · show a.y + t * (b.y - a.y) = (1 - t) * a.y + t * b.y
    ring

theorem along_zero (a b : Point α) : along a b 0 = a := by
  rw [along_eq, sub_zero, one_smul, zero_smul, add_zero]

theorem along_one (a b : Point α) : along a b 1 = b := by
  rw [along_eq, sub_self, zero_smul, one_smul, zero_add]

theorem along_self (a : Point α) (t : α) : along a a t = a := by
  rw [along_eq, ← add_smul, sub_add_cancel, one_smul]

theorem along_along (a b : Point α) (t u : α) : along a (along a b t) u = along a b (t * u) := by
  simp only [along, add_sub_cancel_left, ← mul_assoc, mul_comm u t]

theorem along_swap (a b : Point α) (t : α) : along b a (1 - t) = along a b t := by
  rw [along_eq, along_eq, sub_sub_cancel, add_comm]

private theorem scale_turn_eq (a b c p : Point α) :
    turn a b c • p = turn b c p • a + turn c a p • b + turn a b p • c := by
  ext
  · simp only [turn, Point.add_x, Point.smul_x]
    ring
  · simp only [turn, Point.add_y, Point.smul_y]
    ring

variable [LinearOrder α] {points others polygon : List (Point α)} {a b c p q : Point α} {t : α}

theorem mem_filled (member : p ∈ points) : p ∈ filled points :=
  subset_convexHull α {p | p ∈ points} member

theorem filled_subset (inside : ∀ p ∈ points, p ∈ filled others) :
    filled points ⊆ filled others :=
  convexHull_min inside (convex_convexHull α _)

variable [IsStrictOrderedRing α]

theorem along_mem_filled (first : a ∈ filled points) (second : b ∈ filled points) (low : 0 ≤ t)
    (high : t ≤ 1) : along a b t ∈ filled points := by
  rw [along_eq]
  exact convex_convexHull α _ first second (sub_nonneg.mpr high) low (sub_add_cancel 1 t)

theorem turn_nonneg_of_mem_filled (left : ∀ q ∈ points, 0 ≤ turn a b q)
    (inside : p ∈ filled points) : 0 ≤ turn a b p := by
  have convex : Convex α {q : Point α | 0 ≤ turn a b q} := by
    intro q hq r hr u v hu hv whole
    show 0 ≤ turn a b (u • q + v • r)
    rw [turn_combination whole]
    exact add_nonneg (mul_nonneg hu hq) (mul_nonneg hv hr)
  exact convexHull_min left convex inside

private theorem mem_filled_of_triangle (first : a ∈ filled points) (second : b ∈ filled points)
    (third : c ∈ filled points) (bend : 0 < turn a b c) (ab : 0 ≤ turn a b p)
    (bc : 0 ≤ turn b c p) (ca : 0 ≤ turn c a p) : p ∈ filled points := by
  have whole : turn b c p + turn c a p + turn a b p = turn a b c := by
    unfold turn
    ring
  have weights : p = (turn b c p / turn a b c) • a + (turn c a p / turn a b c) • b +
      (turn a b p / turn a b c) • c := by
    have balance := congrArg ((turn a b c)⁻¹ • ·) (scale_turn_eq a b c p)
    simp only [smul_add, smul_smul, inv_mul_cancel₀ bend.ne', one_smul] at balance
    simp only [div_eq_inv_mul]
    exact balance
  have inside : ∑ i, ![turn b c p / turn a b c, turn c a p / turn a b c,
      turn a b p / turn a b c] i • ![a, b, c] i ∈ filled points := by
    refine (convex_convexHull α _).sum_mem ?_ ?_ ?_
    · intro i _
      fin_cases i
      · exact div_nonneg bc bend.le
      · exact div_nonneg ca bend.le
      · exact div_nonneg ab bend.le
    · simp only [Fin.sum_univ_three, Matrix.cons_val]
      rw [← add_div, ← add_div, whole, div_self bend.ne']
    · intro i _
      fin_cases i
      · exact first
      · exact second
      · exact third
  rw [weights]
  simpa [Fin.sum_univ_three] using inside

/-- A fan of triangles covers what lies between its first and its last ray. -/
private theorem mem_filled_of_fan {o : Point α} {path : List (Point α)} (several : path ≠ [])
    (members : ∀ q ∈ o :: a :: path, q ∈ filled points)
    (opens : ∀ s ∈ links (a :: path), 0 < turn o s.1 s.2)
    (left : ∀ s ∈ links (a :: path), 0 ≤ turn s.1 s.2 p) (start : 0 ≤ turn o a p)
    (stop : 0 ≤ turn (path.getLast several) o p) : p ∈ filled points := by
  induction path generalizing a with
  | nil => exact absurd rfl several
  | cons b rest ih =>
    rw [links, List.tail_cons, List.zip_cons_cons, List.forall_mem_cons] at opens left
    have ho : o ∈ filled points := members o (by simp)
    have ha : a ∈ filled points := members a (by simp)
    have hb : b ∈ filled points := members b (by simp)
    by_cases within : 0 ≤ turn b o p
    · exact mem_filled_of_triangle ho ha hb opens.1 start left.1 within
    · cases rest with
      | nil => exact absurd stop within
      | cons c rest =>
        -- The point lies beyond the first triangle, in the fan of the others.
        rw [not_le, turn_swap, neg_lt_zero] at within
        apply ih (List.cons_ne_nil c rest) _ opens.2 left.2 within.le
        · rwa [List.getLast_cons (List.cons_ne_nil c rest)] at stop
        · intro q member
          rcases List.mem_cons.mp member with rfl | later
          · exact ho
          · exact members q (List.mem_cons_of_mem _ (List.mem_cons_of_mem _ later))

/-- The region of a convex polygon has no side to its right, and is all that has none. -/
theorem mem_filled_iff (convex : IsConvexCycle polygon) :
    p ∈ filled polygon ↔ ∀ s ∈ sides polygon, 0 ≤ turn s.1 s.2 p := by
  constructor
  · intro inside s side
    exact turn_nonneg_of_mem_filled (fun q member => convex.turn_nonneg side member) inside
  · intro left
    have enough := convex.enough
    obtain ⟨o, a, path, z, rfl⟩ : ∃ o a path z, polygon = o :: a :: (path ++ [z]) := by
      match polygon, enough with
      | o :: a :: rest, enough =>
        rcases List.eq_nil_or_concat rest with rfl | ⟨path, z, rfl⟩
        · simp at enough
        · exact ⟨o, a, path, z, by rw [List.concat_eq_append]⟩
    have whole : sides (o :: a :: (path ++ [z])) =
        (o, a) :: links (a :: (path ++ [z])) ++ [(z, o)] := by
      have closed : o :: a :: (path ++ [z]) ++ [o] = (o :: a :: path) ++ z :: [o] := by simp
      rw [sides_eq_links, closed, links_append]
      rfl
    have inner : ∀ s ∈ links (a :: (path ++ [z])), s ∈ sides (o :: a :: (path ++ [z])) := by
      intro s step
      rw [whole]
      exact List.mem_append_left _ (List.mem_cons_of_mem _ step)
    have several : path ++ [z] ≠ [] := by simp
    apply mem_filled_of_fan (o := o) (a := a) several
    · exact fun q member => mem_filled member
    · intro s step
      obtain ⟨first, second⟩ := mem_of_mem_links step
      have apart := (List.nodup_cons.mp convex.nodup).1
      rw [turn_rotate]
      exact convex.turn_pos (inner s step) List.mem_cons_self
        (ne_of_mem_of_not_mem first apart).symm (ne_of_mem_of_not_mem second apart).symm
    · exact fun s step => left s (inner s step)
    · exact left (o, a) (by rw [whole]; simp)
    · rw [List.getLast_append_singleton]
      exact left (z, o) (by rw [whole]; simp)

end Geometry

end CapabilityAtlas
