import CapabilityAtlas.Geometry.Drawing
import CapabilityAtlas.Proofs.Geometry.Stroke

set_option autoImplicit false
set_option relaxedAutoImplicit false

/-!
The spline of a control polygon. Any four consecutive control points, the first and the last one
counted twice, determine one of its curves. The next curve goes on with the same direction and bend,
and from the reversed polygon come the same curves, backwards.
-/

namespace CapabilityAtlas.Geometry

open Plane (filled)

section Pen

variable {α : Type} [Add α] [Mul α] [Div α] [NatCast α]

private theorem finish_foldl_bending (commands : List (Command α)) (p q : Point α)
    (points : List (Point α)) :
    (points.foldl Sketch.next { stage := .bending p q, commands := commands }).finish =
      commands ++ splineFrom p q points := by
  induction points generalizing commands p q with
  | nil => rfl
  | cons r rest ih =>
    rw [List.foldl_cons, Sketch.next, ih, splineFrom, List.append_assoc, List.singleton_append]

/-- Point by point the pen draws the spline. -/
theorem sketch_eq_spline (points : List (Point α)) : sketch points = spline points := by
  match points with
  | [] | [_] | [_, _] => rfl
  | p :: q :: r :: rest => exact finish_foldl_bending _ q r rest

def Command.isCurve : Command α → Bool
  | .curve _ _ _ => true
  | _ => false

private theorem exists_curves_splineFrom (p q : Point α) (rest : List (Point α)) :
    ∃ curves, splineFrom p q rest = curves ++ [.line ((q :: rest).getLast (by simp))] ∧
      curves.length = rest.length + 1 ∧ ∀ c ∈ curves, c.isCurve := by
  induction rest generalizing p q with
  | nil => exact ⟨[splineCurve p q q], rfl, rfl, by simp [splineCurve, Command.isCurve]⟩
  | cons r rest ih =>
    obtain ⟨curves, same, count, each⟩ := ih q r
    refine ⟨splineCurve p q r :: curves, ?_, congrArg Nat.succ count, ?_⟩
    · rw [splineFrom, same]
      rfl
    · exact List.forall_mem_cons.mpr ⟨rfl, each⟩

private theorem exists_curves_spline {points : List (Point α)} (enough : 3 ≤ points.length) :
    ∃ curves, spline points = .move points[0] :: .line (weigh 5 1 6 points[0] points[1]) ::
        curves ++ [.line points[points.length - 1]] ∧
      curves.length = points.length - 1 ∧ ∀ c ∈ curves, c.isCurve := by
  match points, enough with
  | p :: q :: r :: rest, enough =>
    obtain ⟨curves, same, count, each⟩ := exists_curves_splineFrom p q (r :: rest)
    refine ⟨curves, ?_, count, each⟩
    rw [spline, same]
    simp [List.getLast_eq_getElem]

/-- The mean of three control points at which two curves join. -/
def knot (p q r : Point α) : Point α :=
  ⟨(p.x + ((4 : Nat) : α) * q.x + r.x) / ((6 : Nat) : α),
    (p.y + ((4 : Nat) : α) * q.y + r.y) / ((6 : Nat) : α)⟩

/-- The curve of four consecutive control points. -/
def piece (o p q r : Point α) : List (Point α) :=
  [knot o p q, weigh 2 1 3 p q, weigh 1 2 3 p q, knot p q r]

def pieces : List (Point α) → List (List (Point α))
  | o :: p :: q :: r :: rest => piece o p q r :: pieces (p :: q :: r :: rest)
  | _ => []

private theorem length_pieces (points : List (Point α)) :
    (pieces points).length = points.length - 3 := by
  fun_induction pieces points with
  | case1 o p q r rest ih =>
    simp only [List.length_cons] at ih ⊢
    omega
  | case2 points short =>
    match points with
    | [] | [_] | [_, _] | [_, _, _] => rfl
    | o :: p :: q :: r :: rest => exact absurd rfl (short o p q r rest)

private theorem getElem?_pieces {points : List (Point α)} {i : Nat}
    (bound : i + 3 < points.length) :
    (pieces points)[i]? = some (piece points[i] points[i + 1] points[i + 2] points[i + 3]) := by
  induction i generalizing points with
  | zero =>
    match points with
    | [] | [_] | [_, _] | [_, _, _] => simp at bound
    | o :: p :: q :: r :: rest => rfl
  | succ i ih =>
    match points with
    | [] | [_] | [_, _] | [_, _, _] => simp at bound
    | o :: p :: q :: r :: rest =>
      rw [pieces, List.getElem?_cons_succ, ih (by simpa using bound)]
      rfl

end Pen

section Curves

variable {α : Type} [Field α]

private theorem weigh_comm (m n total : Nat) (p q : Point α) :
    weigh m n total p q = weigh n m total q p := by
  simp only [weigh, add_comm]

private theorem knot_comm (p q r : Point α) : knot p q r = knot r q p := by
  simp only [knot, add_comm, add_left_comm]

private theorem piece_reverse (o p q r : Point α) : (piece o p q r).reverse = piece r q p o := by
  simp only [piece, List.reverse_cons, List.reverse_nil, List.nil_append, List.cons_append]
  rw [knot_comm p q r, knot_comm o p q, weigh_comm 1 2 3 p q, weigh_comm 2 1 3 p q]

private theorem pieces_reverse (points : List (Point α)) :
    pieces points.reverse = ((pieces points).map List.reverse).reverse := by
  refine List.ext_getElem? fun i => ?_
  by_cases bound : i + 3 < points.length
  · have bound' : points.length - 4 - i + 3 < points.length := by omega
    have place : points.length - 3 - 1 - i = points.length - 4 - i := by omega
    rw [getElem?_pieces (by simpa using bound),
      List.getElem?_reverse (by simp [length_pieces]; omega),
      List.length_map, length_pieces, List.getElem?_map, place, getElem?_pieces bound',
      Option.map_some, piece_reverse]
    simp only [List.getElem_reverse]
    congr 2 <;> congr 1 <;> omega
  · rw [List.getElem?_eq_none (by simp [length_pieces]; omega),
      List.getElem?_eq_none (by simp [length_pieces]; omega)]

/-- What holds at the end of a curve is read off its start from behind. -/
private theorem motion_piece_one (order : Nat) (o p q r : Point α) :
    motion order (piece o p q r) 1 = (-1 : α) ^ order • motion order (piece r q p o) 0 := by
  rw [← piece_reverse, motion_reverse, sub_self]

variable [CharZero α]

private theorem knot_left_self (p q : Point α) : knot p p q = weigh 5 1 6 p q := by
  ext
  · simp only [knot, weigh]
    push_cast
    ring
  · simp only [knot, weigh]
    push_cast
    ring

private theorem knot_right_self (p q : Point α) : knot p q q = weigh 1 5 6 p q := by
  rw [knot_comm, knot_left_self, weigh_comm]

private theorem motion_one_piece (o p q r : Point α) :
    motion 1 (piece o p q r) 0 = (q.sub o).divide 2 := by
  rw [piece, motion_one_cubic]
  ext
  · simp only [knot, weigh, Point.scale, Point.sub, Point.divide]
    push_cast
    field
  · simp only [knot, weigh, Point.scale, Point.sub, Point.divide]
    push_cast
    field

private theorem motion_two_piece (o p q r : Point α) :
    motion 2 (piece o p q r) 0 = (q.sub p).sub (p.sub o) := by
  rw [piece, motion_two_cubic]
  ext
  · simp only [knot, weigh, Point.scale, Point.sub]
    push_cast
    field
  · simp only [knot, weigh, Point.scale, Point.sub]
    push_cast
    field

private theorem goesOn_piece (o p q r s : Point α) : GoesOn (piece o p q r) (piece p q r s) := by
  intro order small
  rw [motion_piece_one]
  match order with
  | 0 =>
    rw [pow_zero, one_smul, piece, motion_zero_cubic, piece, motion_zero_cubic, knot_comm]
  | 1 =>
    rw [motion_one_piece, motion_one_piece]
    ext
    · simp only [Point.smul_x, Point.sub, Point.divide]
      ring
    · simp only [Point.smul_y, Point.sub, Point.divide]
      ring
  | 2 =>
    rw [motion_two_piece, motion_two_piece]
    ext
    · simp only [Point.smul_x, Point.sub]
      ring
    · simp only [Point.smul_y, Point.sub]
      ring

theorem isChain_pieces (points : List (Point α)) : (pieces points).IsChain GoesOn := by
  fun_induction pieces points with
  | case1 o p q r rest ih =>
    refine List.isChain_cons.mpr ⟨fun s first => ?_, ih⟩
    cases rest with
    | nil => simp [pieces] at first
    | cons r' rest =>
      obtain rfl := Option.some.inj first
      exact goesOn_piece o p q r r'
  | case2 => exact .nil

/-- From a knot on the pen draws the curves of the control points to come, the last one counted
twice, and a line to it. -/
private theorem strokesFrom_splineFrom (home : Point α) {o p q y z : Point α}
    {rest : List (Point α)} (ends : [y, z] <:+ p :: q :: rest) :
    strokesFrom home (knot o p q) (splineFrom p q rest) =
      pieces (o :: p :: q :: rest ++ [z]) ++ [[weigh 1 5 6 y z, z]] := by
  induction rest generalizing o p q with
  | nil =>
    obtain ⟨rfl, rfl⟩ : y = p ∧ z = q := by
      simpa using ends.eq_of_length rfl
    rw [← knot_right_self]
    rfl
  | cons r rest ih =>
    have ends' : [y, z] <:+ q :: r :: rest := by
      refine (List.suffix_cons_iff.mp ends).resolve_left fun same => ?_
      simpa using congrArg List.length same
    have later := ih (o := p) ends'
    rw [splineFrom, splineCurve]
    change piece o p q r :: strokesFrom home (knot p q r) (splineFrom q r rest) = _
    rw [later]
    rfl

/-- The control polygon with its first and its last point counted twice. -/
def padded (first last : Point α) (points : List (Point α)) : List (Point α) :=
  first :: points ++ [last]

variable {points : List (Point α)}

omit [Field α] [CharZero α] in
private theorem lastTwo_suffix (enough : 2 ≤ points.length) :
    [points[points.length - 2], points[points.length - 1]] <:+ points := by
  have next : points.length - 2 + 1 = points.length - 1 := by omega
  have whole : points.length - 1 + 1 = points.length := by omega
  have last : points.drop (points.length - 2) =
      [points[points.length - 2], points[points.length - 1]] := by
    rw [List.drop_eq_getElem_cons (by omega), next, List.drop_eq_getElem_cons (by omega), whole,
      List.drop_length]
  rw [← last]
  exact List.drop_suffix _ _

omit [Field α] [CharZero α] in
private theorem ends_reverse (enough : 3 ≤ points.length) (enough' : 3 ≤ points.reverse.length) :
    points.reverse[0] = points[points.length - 1] ∧
      points.reverse[1] = points[points.length - 2] ∧
      points.reverse[points.reverse.length - 2] = points[1] ∧
      points.reverse[points.reverse.length - 1] = points[0] := by
  simp only [List.getElem_reverse, List.length_reverse]
  refine ⟨by congr 1, by congr 1, ?_, ?_⟩
  · congr 1
    omega
  · congr 1
    omega

private theorem strokes_spline (enough : 3 ≤ points.length) : strokes (spline points) =
    [points[0], weigh 5 1 6 points[0] points[1]] ::
      pieces (padded points[0] points[points.length - 1] points) ++
      [[weigh 1 5 6 points[points.length - 2] points[points.length - 1],
        points[points.length - 1]]] := by
  match points, enough with
  | p :: q :: r :: rest, enough =>
    have several : 2 ≤ (p :: q :: r :: rest).length := by simp
    have drawn := strokesFrom_splineFrom (o := p) p (lastTwo_suffix several)
    rw [knot_left_self] at drawn
    have whole : strokes (spline (p :: q :: r :: rest)) = [p, weigh 5 1 6 p q] ::
      strokesFrom p (weigh 5 1 6 p q) (splineFrom p q (r :: rest)) := rfl
    rw [whole, drawn]
    rfl

private theorem motion_head_pieces (enough : 3 ≤ points.length) (last : Point α) :
    ∀ s ∈ (pieces (padded points[0] last points)).head?,
      motion 1 s 0 = (points[1].sub points[0]).divide 2 := by
  match points, enough with
  | p :: q :: r :: rest, enough =>
    intro s first
    obtain rfl := Option.some.inj first
    exact motion_one_piece p p q r

private theorem motion_getLast_pieces (enough : 3 ≤ points.length) (first : Point α) :
    ∀ s ∈ (pieces (padded first points[points.length - 1] points)).getLast?, motion 1 s 1 =
      (points[points.length - 1].sub points[points.length - 2]).divide 2 := by
  intro s last
  have enough' : 3 ≤ points.reverse.length := by rwa [List.length_reverse]
  obtain ⟨head, next, -⟩ := ends_reverse enough enough'
  have turned : padded points.reverse[0] first points.reverse =
      (padded first points[points.length - 1] points).reverse := by
    simp [padded]
  have start : s.reverse ∈ (pieces (padded points.reverse[0] first points.reverse)).head? := by
    rw [turned, pieces_reverse, List.head?_reverse, List.getLast?_map]
    exact Option.mem_map_of_mem _ last
  have away := motion_head_pieces enough' first s.reverse start
  rw [motion_reverse, sub_zero, pow_one, head, next] at away
  obtain ⟨across, upward⟩ := Point.ext_iff.mp away
  simp only [Point.smul_x, Point.smul_y, Point.sub, Point.divide] at across upward
  ext
  · simp only [Point.sub, Point.divide]
    linear_combination -across
  · simp only [Point.sub, Point.divide]
    linear_combination -upward

theorem strokes_spline_reverse (enough : 3 ≤ points.length) : strokes (spline points.reverse) =
    ((strokes (spline points)).map List.reverse).reverse := by
  have enough' : 3 ≤ points.reverse.length := by rwa [List.length_reverse]
  obtain ⟨first, second, beforeLast, last⟩ := ends_reverse enough enough'
  have turned : padded points[points.length - 1] points[0] points.reverse =
      (padded points[0] points[points.length - 1] points).reverse := by
    simp [padded]
  rw [strokes_spline enough, strokes_spline enough', first, second, beforeLast, last, turned,
    pieces_reverse]
  simp [weigh_comm 1 5 6]

end Curves

section Region

variable {α : Type} [Field α] [LinearOrder α] [IsStrictOrderedRing α] {o p q r : Point α}
  {points : List (Point α)}

private theorem weigh_mem_filled {m n total : Nat} (whole : m + n = total) (nonzero : 0 < total)
    (first : p ∈ filled points) (second : q ∈ filled points) :
    weigh m n total p q ∈ filled points := by
  have positive : (0 : α) < total := Nat.cast_pos.mpr nonzero
  have share : weigh m n total p q = along p q (n / total) := by
    have whole' : (m : α) = total - n := by
      rw [← whole]
      push_cast
      ring
    ext
    · simp only [weigh, along, whole']
      field
    · simp only [weigh, along, whole']
      field
  rw [share]
  refine along_mem_filled first second (by positivity) ((div_le_one positive).mpr ?_)
  exact Nat.cast_le.mpr (by omega)

private theorem knot_mem_filled (first : p ∈ filled points) (second : q ∈ filled points)
    (third : r ∈ filled points) : knot p q r ∈ filled points := by
  have share : knot p q r = weigh 1 2 3 (weigh 1 1 2 p r) q := by
    ext
    · simp only [knot, weigh]
      push_cast
      ring
    · simp only [knot, weigh]
      push_cast
      ring
  rw [share]
  have middle := weigh_mem_filled (m := 1) (n := 1) rfl two_pos first third
  exact weigh_mem_filled rfl three_pos middle second

private theorem mem_filled_of_mem_pieces {polygon : List (Point α)}
    (inside : ∀ p ∈ polygon, p ∈ filled points)
    {s : List (Point α)} (member : s ∈ pieces polygon) : ∀ p ∈ s, p ∈ filled points := by
  fun_induction pieces polygon with
  | case1 o p q r rest ih =>
    simp only [List.forall_mem_cons] at inside ih
    obtain ⟨first, second, third, fourth, others⟩ := inside
    rcases List.mem_cons.mp member with rfl | later
    · simp only [piece, List.forall_mem_cons]
      refine ⟨knot_mem_filled first second third, ?_, ?_, knot_mem_filled second third fourth, ?_⟩
      · exact weigh_mem_filled rfl three_pos second third
      · exact weigh_mem_filled rfl three_pos second third
      · simp
    · exact ih ⟨second, third, fourth, others⟩ later
  | case2 => simp at member

/-- Commands that draw a smooth curve along a control polygon, from its first to its last point: by
their shape, by the strokes of the pen and by the region in which these stay. -/
structure IsSmoothAlong (points : List (Point α)) (enough : 3 ≤ points.length)
    (commands : List (Command α)) : Prop where
  shape : ∃ curves, commands = .move points[0] :: .line (weigh 5 1 6 points[0] points[1]) ::
      curves ++ [.line points[points.length - 1]] ∧
    curves.length = points.length - 1 ∧ ∀ c ∈ curves, c.isCurve
  connected : ConnectedFrom points[0] (strokes commands)
  smooth : ∃ cubics, strokes commands = [points[0], weigh 5 1 6 points[0] points[1]] :: cubics ++
      [[weigh 1 5 6 points[points.length - 2] points[points.length - 1],
        points[points.length - 1]]] ∧
    cubics.length = points.length - 1 ∧ (∀ s ∈ cubics, s.length = 4) ∧ cubics.IsChain GoesOn ∧
    (∀ s ∈ cubics.head?, motion 1 s 0 = (points[1].sub points[0]).divide 2) ∧
    ∀ s ∈ cubics.getLast?, motion 1 s 1 =
      (points[points.length - 1].sub points[points.length - 2]).divide 2
  named : ∀ c ∈ commands, ∀ p ∈ c.points, p ∈ filled points
  drawn : ∀ s ∈ strokes commands, ∀ t, 0 ≤ t → t ≤ 1 → motion 0 s t ∈ filled points

omit [LinearOrder α] [IsStrictOrderedRing α] in
private theorem length_of_mem_pieces {polygon s : List (Point α)} (member : s ∈ pieces polygon) :
    s.length = 4 := by
  fun_induction pieces polygon with
  | case1 o p q r rest ih =>
    rcases List.mem_cons.mp member with rfl | later
    · rfl
    · exact ih later
  | case2 => simp at member

theorem mem_filled_of_mem_strokes (enough : 3 ≤ points.length) {s : List (Point α)}
    (member : s ∈ strokes (spline points)) : s ≠ [] ∧ ∀ p ∈ s, p ∈ filled points := by
  have inside : ∀ {i : Nat} (bound : i < points.length), points[i] ∈ filled points :=
    fun bound => mem_filled (List.getElem_mem bound)
  have inside' : ∀ p ∈ padded points[0] points[points.length - 1] points, p ∈ filled points := by
    intro p around
    simp only [padded, List.cons_append, List.mem_cons, List.mem_append, List.not_mem_nil,
      or_false] at around
    rcases around with rfl | within | rfl
    · exact inside (by omega)
    · exact mem_filled within
    · exact inside (by omega)
  have six : 0 < 6 := by decide
  rw [strokes_spline enough, List.cons_append, List.mem_cons, List.mem_append,
    List.mem_singleton] at member
  rcases member with rfl | curve | rfl
  · refine ⟨by simp, ?_⟩
    simp only [List.forall_mem_cons]
    refine ⟨inside (by omega), weigh_mem_filled rfl six (inside (by omega)) (inside (by omega)), ?_⟩
    simp
  · exact ⟨List.ne_nil_of_length_eq_add_one (length_of_mem_pieces curve),
      mem_filled_of_mem_pieces inside' curve⟩
  · refine ⟨by simp, ?_⟩
    simp only [List.forall_mem_cons]
    refine ⟨weigh_mem_filled rfl six (inside (by omega)) (inside (by omega)), inside (by omega), ?_⟩
    simp

theorem isSmoothAlong_spline (enough : 3 ≤ points.length) :
    IsSmoothAlong points enough (spline points) := by
  obtain ⟨curves, same, count, each⟩ := exists_curves_spline enough
  have down : ∀ c ∈ (spline points).tail, ∀ p, c ≠ .move p := by
    rw [same]
    rintro c member p rfl
    simp only [List.cons_append, List.tail_cons, List.mem_cons, List.mem_append, reduceCtorEq,
      List.not_mem_nil, or_false, false_or] at member
    simpa [Command.isCurve] using each _ member
  have pen : strokes (spline points) = strokesFrom points[0] points[0] (spline points).tail := by
    rw [same]
    rfl
  have whole := strokes_spline enough
  refine ⟨⟨curves, same, count, each⟩, ?_, ⟨_, whole, ?_, ?_, ?_, ?_, ?_⟩, ?_, ?_⟩
  · rw [pen]
    exact connectedFrom_strokesFrom down
  · rw [length_pieces]
    simp [padded]
  · exact fun s => length_of_mem_pieces
  · exact isChain_pieces _
  · exact motion_head_pieces enough _
  · exact motion_getLast_pieces enough _
  · intro c member p named
    have first : spline points = .move points[0] :: (spline points).tail := by
      rw [same]
      rfl
    rw [first, List.mem_cons] at member
    rcases member with rfl | later
    · obtain rfl := List.mem_singleton.mp named
      exact mem_filled (List.getElem_mem _)
    · obtain ⟨s, drawn, inside⟩ : ∃ s ∈ strokesFrom points[0] points[0] _, p ∈ s :=
        exists_mem_strokesFrom down later named
      rw [← pen] at drawn
      exact (mem_filled_of_mem_strokes enough drawn).2 p inside
  · intro s member t low high
    obtain ⟨nonempty, inside⟩ := mem_filled_of_mem_strokes enough member
    exact motion_mem_filled nonempty inside low high

/-- The spline of three control points or more, as the pen draws it point by point, is a smooth
curve along them that stays in the region that they span, and the spline of the reversed polygon
runs through the same strokes backwards. -/
theorem spline_smooth (enough : 3 ≤ points.length) :
    sketch points = spline points ∧ IsSmoothAlong points enough (spline points) ∧
      strokes (spline points.reverse) = ((strokes (spline points)).map List.reverse).reverse ∧
      ∀ s ∈ strokes (spline points), ∀ t, motion 0 s.reverse t = motion 0 s (1 - t) := by
  refine ⟨sketch_eq_spline points, isSmoothAlong_spline enough, strokes_spline_reverse enough, ?_⟩
  intro s _ t
  rw [motion_reverse, pow_zero, one_smul]

theorem spline_smooth_of_corner :
    let corner : List (Point ℚ) := [⟨0, 0⟩, ⟨6, 0⟩, ⟨6, 6⟩]
    ∃ enough : 3 ≤ corner.length, IsSmoothAlong corner enough (spline corner) ∧
      strokes (spline corner) = [[⟨0, 0⟩, ⟨1, 0⟩], [⟨1, 0⟩, ⟨2, 0⟩, ⟨4, 0⟩, ⟨5, 1⟩],
        [⟨5, 1⟩, ⟨6, 2⟩, ⟨6, 4⟩, ⟨6, 5⟩], [⟨6, 5⟩, ⟨6, 6⟩]] :=
  ⟨by decide, (spline_smooth (by decide)).2.1, by decide +kernel⟩

end Region

end CapabilityAtlas.Geometry
