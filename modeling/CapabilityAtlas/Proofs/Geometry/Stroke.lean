import CapabilityAtlas.Geometry.Drawing
import CapabilityAtlas.Proofs.Geometry.Plane
import Mathlib.RingTheory.Polynomial.Bernstein

set_option autoImplicit false
set_option relaxedAutoImplicit false

/-!
Strokes of a pen. Each command of a drawing leads from where the pen is along the curve of some
control points, a polynomial in a time that runs from zero to one. A stroke never leaves the region
that its control points span, and with its control points reversed it runs backwards.
-/

namespace CapabilityAtlas.Geometry

open Polynomial
open Plane (filled)

section Drawing

variable {α : Type}

def Command.points : Command α → List (Point α)
  | .move p | .line p => [p]
  | .curve a b p => [a, b, p]
  | .close => []

/-- The control points of the strokes that some commands draw, from where the pen is and with the
point to which closing leads back. -/
def strokesFrom (home pen : Point α) : List (Command α) → List (List (Point α))
  | [] => []
  | .move p :: rest => strokesFrom p p rest
  | .line p :: rest => [pen, p] :: strokesFrom home p rest
  | .curve a b p :: rest => [pen, a, b, p] :: strokesFrom home p rest
  | .close :: rest => [pen, home] :: strokesFrom home home rest

def strokes : List (Command α) → List (List (Point α))
  | .move p :: rest => strokesFrom p p rest
  | _ => []

def Meets (s s' : List (Point α)) : Prop := s.getLast? = s'.head?

def ConnectedFrom (pen : Point α) (drawn : List (List (Point α))) : Prop :=
  drawn.IsChain Meets ∧ ∀ s ∈ drawn.head?, s.head? = some pen

private theorem ConnectedFrom.cons {pen p : Point α} {stroke : List (Point α)}
    {drawn : List (List (Point α))} (connected : ConnectedFrom p drawn)
    (starts : stroke.head? = some pen) (ends : stroke.getLast? = some p) :
    ConnectedFrom pen (stroke :: drawn) := by
  refine ⟨List.isChain_cons.mpr ⟨?_, connected.1⟩, by simpa using starts⟩
  exact fun s first => ends.trans (connected.2 s first).symm

theorem connectedFrom_strokesFrom {home pen : Point α} {commands : List (Command α)}
    (down : ∀ c ∈ commands, ∀ p, c ≠ .move p) :
    ConnectedFrom pen (strokesFrom home pen commands) := by
  induction commands generalizing home pen with
  | nil => exact ⟨.nil, by simp [strokesFrom]⟩
  | cons command rest ih =>
    obtain ⟨here, later⟩ := List.forall_mem_cons.mp down
    cases command with
    | move p => exact absurd rfl (here p)
    | line p | curve a b p | close => exact (ih later).cons rfl rfl

theorem exists_mem_strokesFrom {home pen : Point α} {commands : List (Command α)}
    {c : Command α} {p : Point α} (down : ∀ c ∈ commands, ∀ p, c ≠ .move p) (member : c ∈ commands)
    (named : p ∈ c.points) : ∃ s ∈ strokesFrom home pen commands, p ∈ s := by
  induction commands generalizing home pen with
  | nil => simp at member
  | cons command rest ih =>
    obtain ⟨here, later⟩ := List.forall_mem_cons.mp down
    rcases List.mem_cons.mp member with rfl | behind
    · cases c with
      | move q => exact absurd rfl (here q)
      | line q | curve a b q => exact ⟨_, List.mem_cons_self, List.mem_cons_of_mem _ named⟩
      | close => simp [Command.points] at named
    · cases command with
      | move q => exact absurd rfl (here q)
      | line q | curve a b q | close =>
        obtain ⟨s, drawn, inside⟩ := ih later behind
        exact ⟨s, List.mem_cons_of_mem _ drawn, inside⟩

end Drawing

variable {α : Type} [Field α]

/-- One coordinate of a stroke as a polynomial in the time. -/
noncomputable def course (coordinate : Point α → α) (stroke : List (Point α)) : α[X] :=
  ∑ i : Fin stroke.length, C (coordinate stroke[i]) * bernsteinPolynomial α (stroke.length - 1) i

/-- Where a stroke is at a time, or its derivative of some order there. -/
noncomputable def motion (order : Nat) (stroke : List (Point α)) (t : α) : Point α :=
  ⟨(derivative^[order] (course Point.x stroke)).eval t,
    (derivative^[order] (course Point.y stroke)).eval t⟩

/-- Whether a stroke goes on where another one ends, in the same direction and with the same bend.
-/
def GoesOn (s s' : List (Point α)) : Prop := ∀ order ≤ 2, motion order s 1 = motion order s' 0

section Reverse

private theorem course_reverse (coordinate : Point α → α) (stroke : List (Point α)) :
    course coordinate stroke.reverse = (course coordinate stroke).comp (1 - X) := by
  unfold course
  rw [sum_comp]
  refine Fintype.sum_equiv ((finCongr List.length_reverse).trans Fin.revPerm) _ _ fun i => ?_
  have bound : (i : Nat) < stroke.length := by simpa using i.isLt
  have place : stroke.length - (i + 1) = stroke.length - 1 - i := by omega
  have last : stroke.length - 1 - (stroke.length - 1 - i) = i := by omega
  simp only [mul_comp, C_comp, Equiv.trans_apply, Fin.revPerm_apply, Fin.getElem_fin,
    List.getElem_reverse, List.length_reverse, Fin.val_rev, finCongr_apply, Fin.val_cast, place]
  rw [bernsteinPolynomial.flip α _ _ (by omega), last]

/-- Backwards every derivative of odd order changes its sign. -/
theorem motion_reverse (order : Nat) (stroke : List (Point α)) (t : α) :
    motion order stroke.reverse t = (-1 : α) ^ order • motion order stroke (1 - t) := by
  have each : ∀ coordinate : Point α → α,
      (derivative^[order] (course coordinate stroke.reverse)).eval t =
        (-1) ^ order * (derivative^[order] (course coordinate stroke)).eval (1 - t) := by
    intro coordinate
    rw [course_reverse, iterate_derivative_comp_one_sub_X]
    simp
  exact Point.ext (each Point.x) (each Point.y)

end Reverse

section Cubic

variable (a b c d : Point α)

private theorem course_cubic (coordinate : Point α → α) : course coordinate [a, b, c, d] =
    C (coordinate a) * (1 - X) ^ 3 + C (coordinate b) * (3 * X * (1 - X) ^ 2) +
      C (coordinate c) * (3 * X ^ 2 * (1 - X)) + C (coordinate d) * X ^ 3 := by
  have whole : course coordinate [a, b, c, d] =
      C (coordinate a) * bernsteinPolynomial α 3 0 + C (coordinate b) * bernsteinPolynomial α 3 1 +
        C (coordinate c) * bernsteinPolynomial α 3 2 +
        C (coordinate d) * bernsteinPolynomial α 3 3 := Fin.sum_univ_four _
  rw [whole]
  simp [bernsteinPolynomial, Nat.choose]

theorem motion_zero_cubic : motion 0 [a, b, c, d] 0 = a := by
  have each : ∀ coordinate : Point α → α,
      (course coordinate [a, b, c, d]).eval 0 = coordinate a := by
    intro coordinate
    simp [course_cubic]
  exact Point.ext (each Point.x) (each Point.y)

theorem motion_one_cubic : motion 1 [a, b, c, d] 0 = (b.sub a).scale 3 := by
  have each : ∀ coordinate : Point α → α,
      (derivative (course coordinate [a, b, c, d])).eval 0 =
        3 * (coordinate b - coordinate a) := by
    intro coordinate
    simp [course_cubic, derivative_pow]
    ring
  exact Point.ext (each Point.x) (each Point.y)

theorem motion_two_cubic :
    motion 2 [a, b, c, d] 0 = ((c.sub b).sub (b.sub a)).scale 6 := by
  have each : ∀ coordinate : Point α → α,
      (derivative (derivative (course coordinate [a, b, c, d]))).eval 0 =
        6 * (coordinate c - coordinate b - (coordinate b - coordinate a)) := by
    intro coordinate
    simp [course_cubic, derivative_pow]
    ring
  exact Point.ext (each Point.x) (each Point.y)

end Cubic

section Region

private theorem sum_x {ι : Type} (s : Finset ι) (f : ι → Point α) :
    (∑ i ∈ s, f i).x = ∑ i ∈ s, (f i).x :=
  map_sum (⟨⟨Point.x, rfl⟩, fun _ _ => rfl⟩ : Point α →+ α) f s

private theorem sum_y {ι : Type} (s : Finset ι) (f : ι → Point α) :
    (∑ i ∈ s, f i).y = ∑ i ∈ s, (f i).y :=
  map_sum (⟨⟨Point.y, rfl⟩, fun _ _ => rfl⟩ : Point α →+ α) f s

private theorem motion_eq_sum (stroke : List (Point α)) (t : α) : motion 0 stroke t =
    ∑ i : Fin stroke.length, (bernsteinPolynomial α (stroke.length - 1) i).eval t • stroke[i] := by
  have each : ∀ coordinate : Point α → α, (course coordinate stroke).eval t =
      ∑ i : Fin stroke.length,
        (bernsteinPolynomial α (stroke.length - 1) i).eval t * coordinate stroke[i] := by
    intro coordinate
    simp only [course, eval_finsetSum, eval_mul, eval_C, mul_comm]
  apply Point.ext
  · rw [sum_x]
    exact each Point.x
  · rw [sum_y]
    exact each Point.y

private theorem sum_eval_bernsteinPolynomial {n : Nat} (positive : 0 < n) (t : α) :
    ∑ i : Fin n, (bernsteinPolynomial α (n - 1) i).eval t = 1 := by
  have whole := congrArg (eval t) (bernsteinPolynomial.sum α (n - 1))
  rwa [Nat.sub_add_cancel positive, Finset.sum_range, eval_finsetSum, eval_one] at whole

variable [LinearOrder α] [IsStrictOrderedRing α] {t : α}

private theorem eval_bernsteinPolynomial_nonneg (n i : Nat) (low : 0 ≤ t) (high : t ≤ 1) :
    0 ≤ (bernsteinPolynomial α n i).eval t := by
  have rest : 0 ≤ 1 - t := sub_nonneg.mpr high
  simp only [bernsteinPolynomial, eval_mul, eval_pow, eval_sub, eval_one, eval_X, eval_natCast]
  positivity

theorem motion_mem_filled {stroke points : List (Point α)} (nonempty : stroke ≠ [])
    (inside : ∀ p ∈ stroke, p ∈ filled points) (low : 0 ≤ t) (high : t ≤ 1) :
    motion 0 stroke t ∈ filled points := by
  rw [motion_eq_sum]
  refine (convex_convexHull α _).sum_mem ?_ ?_ ?_
  · exact fun i _ => eval_bernsteinPolynomial_nonneg _ i low high
  · exact sum_eval_bernsteinPolynomial (List.length_pos_of_ne_nil nonempty) t
  · exact fun i _ => inside _ (List.getElem_mem _)

end Region

end CapabilityAtlas.Geometry
