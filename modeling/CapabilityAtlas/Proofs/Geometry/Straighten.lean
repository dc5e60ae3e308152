import CapabilityAtlas.Proofs.Geometry.Spline
import CapabilityAtlas.Proofs.Order

set_option autoImplicit false
set_option relaxedAutoImplicit false

/-!
Control polygons pulled towards the chord between their ends. Every control point moves straight
towards its own place on the chord, and the places stay where they are because the ends do. So
shares multiply, and as long as they are between zero and one, no point leaves the region that the
polygon spans.
-/

namespace CapabilityAtlas.Geometry

open Plane (filled)

section Laws

variable {α : Type} [Field α] {points : List (Point α)} {first last : Point α}

structure HasEnds (points : List (Point α)) (first last : Point α) : Prop where
  enough : 2 ≤ points.length
  head : points.head? = some first
  tail : points.getLast? = some last

omit [Field α] in
private theorem exists_hasEnds (enough : 2 ≤ points.length) :
    ∃ first last, HasEnds points first last := by
  have nonempty : points ≠ [] := List.ne_nil_of_length_pos (by omega)
  exact ⟨_, _, enough, List.head?_eq_some_head nonempty, List.getLast?_eq_some_getLast nonempty⟩

omit [Field α] in
private theorem HasEnds.reverse (ends : HasEnds points first last) :
    HasEnds points.reverse last first := by
  constructor
  case enough => simpa using ends.enough
  case head => rw [List.head?_reverse, ends.tail]
  case tail => rw [List.getLast?_reverse, ends.head]

/-- The place on the chord from the first to the last of some points that belongs to one of them. -/
def chordPoint (first last : Point α) (count i : Nat) : Point α :=
  along first last (Scalar.ratio i count)

private theorem chordPoint_zero (first last : Point α) (count : Nat) :
    chordPoint first last count 0 = first := by
  rw [chordPoint, Scalar.ratio, Nat.cast_zero, zero_div, along_zero]

private theorem straighten_of_short (short : points.length < 2) (b : α) :
    straighten b points = points := by
  match points, short with
  | [], _ | [p], _ => rfl

private theorem HasEnds.getElem?_straighten (ends : HasEnds points first last) (b : α) (i : Nat) :
    (straighten b points)[i]? =
      points[i]?.map fun p => along (chordPoint first last (points.length - 1) i) p b := by
  have pulled : ∀ origin way t v : α, pull b origin way t v =
      origin + t * way + b * (v - (origin + t * way)) := by
    intro origin way t v
    rw [pull, Nat.cast_one]
    ring
  simp only [straighten, ends.head, ends.tail, if_neg (Nat.not_lt.mpr ends.enough), pulled,
    List.getElem?_mapIdx]
  rfl

theorem length_straighten (b : α) (points : List (Point α)) :
    (straighten b points).length = points.length := by
  unfold straighten
  split
  · split
    · rfl
    · rw [List.length_mapIdx]
  · rfl

theorem straighten_one (points : List (Point α)) : straighten 1 points = points := by
  rcases Nat.lt_or_ge points.length 2 with short | enough
  · exact straighten_of_short short 1
  · obtain ⟨first, last, ends⟩ := exists_hasEnds enough
    refine List.ext_getElem? fun i => ?_
    simp only [ends.getElem?_straighten, along_one, Option.map_id']

variable [CharZero α]

private theorem chordPoint_self (first last : Point α) {count : Nat} (positive : 0 < count) :
    chordPoint first last count count = last := by
  have nonzero : (count : α) ≠ 0 := Nat.cast_ne_zero.mpr positive.ne'
  rw [chordPoint, Scalar.ratio, div_self nonzero, along_one]

private theorem chordPoint_swap (first last : Point α) {count i : Nat} (positive : 0 < count)
    (bound : i ≤ count) :
    chordPoint last first count i = chordPoint first last count (count - i) := by
  have nonzero : (count : α) ≠ 0 := Nat.cast_ne_zero.mpr positive.ne'
  have rest : (Scalar.ratio (count - i) count : α) = 1 - Scalar.ratio i count := by
    rw [Scalar.ratio, Scalar.ratio, Nat.cast_sub bound]
    field
  rw [chordPoint, chordPoint, rest, along_swap]

private theorem HasEnds.straighten (ends : HasEnds points first last) (b : α) :
    HasEnds (straighten b points) first last := by
  have enough := ends.enough
  have head := ends.head
  have tail := ends.tail
  rw [List.head?_eq_getElem?] at head
  rw [List.getLast?_eq_getElem?] at tail
  -- The chord and the polygon meet at the ends, so there is nowhere to pull them.
  constructor
  case enough => rwa [length_straighten]
  case head =>
    rw [List.head?_eq_getElem?, ends.getElem?_straighten, head, Option.map_some, chordPoint_zero,
      along_self]
  case tail =>
    rw [List.getLast?_eq_getElem?, length_straighten, ends.getElem?_straighten, tail,
      Option.map_some, chordPoint_self _ _ (by omega), along_self]

private theorem head?_straighten (b : α) (points : List (Point α)) :
    (straighten b points).head? = points.head? := by
  rcases Nat.lt_or_ge points.length 2 with short | enough
  · rw [straighten_of_short short]
  · obtain ⟨first, last, ends⟩ := exists_hasEnds enough
    rw [(ends.straighten b).head, ends.head]

private theorem getLast?_straighten (b : α) (points : List (Point α)) :
    (straighten b points).getLast? = points.getLast? := by
  rcases Nat.lt_or_ge points.length 2 with short | enough
  · rw [straighten_of_short short]
  · obtain ⟨first, last, ends⟩ := exists_hasEnds enough
    rw [(ends.straighten b).tail, ends.tail]

/-- Pulled twice, a polygon keeps the product of both shares. -/
theorem straighten_straighten (b b' : α) (points : List (Point α)) :
    straighten b' (straighten b points) = straighten (b * b') points := by
  rcases Nat.lt_or_ge points.length 2 with short | enough
  · rw [straighten_of_short short, straighten_of_short short, straighten_of_short short]
  · obtain ⟨first, last, ends⟩ := exists_hasEnds enough
    refine List.ext_getElem? fun i => ?_
    simp only [(ends.straighten b).getElem?_straighten, ends.getElem?_straighten, Option.map_map,
      length_straighten, Function.comp_def, along_along]

theorem straighten_reverse (b : α) (points : List (Point α)) :
    straighten b points.reverse = (straighten b points).reverse := by
  rcases Nat.lt_or_ge points.length 2 with short | enough
  · rw [straighten_of_short short, straighten_of_short (by rwa [List.length_reverse])]
  · obtain ⟨first, last, ends⟩ := exists_hasEnds enough
    refine List.ext_getElem? fun i => ?_
    rw [ends.reverse.getElem?_straighten, List.length_reverse]
    by_cases bound : i < points.length
    · rw [List.getElem?_reverse bound, List.getElem?_reverse (by rwa [length_straighten]),
        length_straighten, ends.getElem?_straighten,
        chordPoint_swap first last (by omega) (by omega)]
    · rw [List.getElem?_eq_none (by simpa using bound),
        List.getElem?_eq_none (by simpa [length_straighten] using bound), Option.map_none]

end Laws

section Region

variable {α : Type} [Field α] [LinearOrder α] [IsStrictOrderedRing α] {points : List (Point α)}

private theorem chordPoint_mem_filled {first last : Point α} (start : first ∈ filled points)
    (stop : last ∈ filled points) {count i : Nat} (nonzero : 0 < count) (bound : i ≤ count) :
    chordPoint first last count i ∈ filled points := by
  have positive : (0 : α) < count := Nat.cast_pos.mpr nonzero
  refine along_mem_filled start stop (div_nonneg (Nat.cast_nonneg i) positive.le) ?_
  exact (div_le_one positive).mpr (Nat.cast_le.mpr bound)

private theorem mem_filled_of_mem_straighten {b : α} (low : 0 ≤ b) (high : b ≤ 1) {q : Point α}
    (member : q ∈ straighten b points) : q ∈ filled points := by
  rcases Nat.lt_or_ge points.length 2 with short | enough
  · rw [straighten_of_short short] at member
    exact mem_filled member
  · obtain ⟨first, last, ends⟩ := exists_hasEnds enough
    obtain ⟨i, place⟩ := List.mem_iff_getElem?.mp member
    rw [ends.getElem?_straighten, Option.map_eq_some_iff] at place
    obtain ⟨p, place, rfl⟩ := place
    obtain ⟨bound, -⟩ := List.getElem?_eq_some_iff.mp place
    have start := mem_filled (List.mem_of_mem_head? ends.head)
    have stop := mem_filled (List.mem_of_mem_getLast? ends.tail)
    exact along_mem_filled (chordPoint_mem_filled start stop (by omega) (by omega))
      (mem_filled (List.mem_of_getElem? place)) low high

private theorem clampTension_mem (tension : α) :
    0 ≤ clampTension tension ∧ clampTension tension ≤ 1 := by
  rw [clampTension, if_pos (Scalar.defined_eq_true tension), clampUnit, Scalar.smaller_eq_min,
    Scalar.larger_eq_max, Nat.cast_zero, Nat.cast_one]
  exact ⟨le_min zero_le_one (le_max_left 0 tension), min_le_left _ _⟩

/-- Commands that draw a path from the first to the last of some points, within the region that
these span. -/
structure KeepsTo (points : List (Point α)) (commands : List (Command α)) : Prop where
  starts : (commands.flatMap Command.points).head? = points.head?
  ends : (commands.flatMap Command.points).getLast? = points.getLast?
  named : ∀ c ∈ commands, ∀ p ∈ c.points, p ∈ filled points
  drawn : ∀ s ∈ strokes commands, ∀ t, 0 ≤ t → t ≤ 1 → motion 0 s t ∈ filled points

private theorem keepsTo_spline (points : List (Point α)) : KeepsTo points (spline points) := by
  match points with
  | [] => exact ⟨rfl, rfl, by simp [spline], by simp [spline, strokes]⟩
  | [p] =>
    refine ⟨rfl, rfl, ?_, by simp [spline, strokes, strokesFrom]⟩
    simp only [spline, List.mem_singleton, forall_eq, Command.points]
    exact mem_filled List.mem_cons_self
  | [p, q] =>
    refine ⟨rfl, rfl, ?_, ?_⟩
    · simp only [spline, List.forall_mem_cons, Command.points]
      refine ⟨⟨?_, by simp⟩, ⟨?_, by simp⟩, by simp⟩
      · exact mem_filled (by simp)
      · exact mem_filled (by simp)
    · simp only [spline, strokes, strokesFrom, List.mem_singleton, forall_eq]
      intro t low high
      exact motion_mem_filled (by simp) (fun p member => mem_filled member) low high
  | p :: q :: r :: rest =>
    have enough : 3 ≤ (p :: q :: r :: rest).length := by simp
    have smooth := isSmoothAlong_spline enough
    obtain ⟨curves, same, -⟩ := smooth.shape
    refine ⟨?_, ?_, smooth.named, smooth.drawn⟩
    · rw [same]
      rfl
    · have last : (p :: q :: r :: rest).getLast? =
          some (p :: q :: r :: rest)[(p :: q :: r :: rest).length - 1] := by
        rw [List.getLast?_eq_getElem?, List.getElem?_eq_getElem]
      rw [same, List.flatMap_append, List.getLast?_append, last]
      rfl

/-- Whatever their number, control points keep their number and their ends when they are pulled.
Shares multiply, the whole share changes nothing, reversed points are pulled as they are in their
own order, and with a share between zero and one none leaves the region that they span. So at every
tension the path has the same ends and stays in the region of its route. -/
theorem straighten_laws (points : List (Point α)) (b b' : α) :
    (straighten b points).length = points.length ∧
    (straighten b points).head? = points.head? ∧
    (straighten b points).getLast? = points.getLast? ∧
    straighten b' (straighten b points) = straighten (b * b') points ∧
    straighten 1 points = points ∧
    straighten b points.reverse = (straighten b points).reverse ∧
    (0 ≤ b → b ≤ 1 → ∀ q ∈ straighten b points, q ∈ filled points) ∧
    ∀ tension, KeepsTo points (spline (straighten (clampTension tension) points)) := by
  refine ⟨length_straighten b points, head?_straighten b points, getLast?_straighten b points,
    straighten_straighten b b' points, straighten_one points, straighten_reverse b points,
    fun low high q member => mem_filled_of_mem_straighten low high member, fun tension => ?_⟩
  obtain ⟨low, high⟩ := clampTension_mem tension
  have within : filled (straighten (clampTension tension) points) ⊆ filled points :=
    filled_subset fun q member => mem_filled_of_mem_straighten low high member
  obtain ⟨starts, ends, named, drawn⟩ := keepsTo_spline (straighten (clampTension tension) points)
  refine ⟨?_, ?_, ?_, ?_⟩
  · rw [starts, head?_straighten]
  · rw [ends, getLast?_straighten]
  · exact fun c member p point => within (named c member p point)
  · exact fun s member t early late => within (drawn s member t early late)

/-- A detour that is pulled by a half, and then by a half again. -/
theorem straighten_laws_of_detour :
    let detour : List (Point ℚ) := [⟨0, 0⟩, ⟨6, 12⟩, ⟨12, 0⟩]
    straighten (1 / 2) detour = [⟨0, 0⟩, ⟨6, 6⟩, ⟨12, 0⟩] ∧
      straighten (1 / 2) (straighten (1 / 2) detour) = straighten (1 / 4) detour ∧
      ∀ q ∈ straighten (1 / 2) detour, q ∈ filled detour := by
  intro detour
  obtain ⟨-, -, -, twice, -, -, inside, -⟩ := straighten_laws detour (1 / 2) (1 / 2)
  refine ⟨by decide +kernel, ?_, inside (by norm_num) (by norm_num)⟩
  rw [twice]
  norm_num

end Region

end CapabilityAtlas.Geometry
