import CapabilityAtlas.Proofs.Geometry.Convex
import Mathlib.Data.List.Induction

set_option autoImplicit false
set_option relaxedAutoImplicit false

/-!
What a sweep over a set of points keeps. The points are sorted, and a sweep comes to them in the
order of a heading. Its chain runs from the first point to the last, with no point to its right.
-/

namespace CapabilityAtlas.Geometry

private theorem eq_or_related {β : Type} {r : β → β → Prop} {l : List β} {b q : β}
    (ordered : l.Pairwise r) (first : b ∈ l) (second : q ∈ l) : q = b ∨ r b q ∨ r q b := by
  obtain ⟨front, back, rfl⟩ := List.append_of_mem first
  rw [List.pairwise_append] at ordered
  rcases List.mem_append.mp second with earlier | later
  · exact Or.inr (Or.inr (ordered.2.2 q earlier b List.mem_cons_self))
  · rcases List.mem_cons.mp later with rfl | later
    · exact Or.inl rfl
    · exact Or.inr (Or.inl (List.rel_of_pairwise_cons ordered.2.1 later))

variable {α : Type} [Field α] [LinearOrder α]

namespace Point

variable {p q : Point α} {points : List (Point α)}

omit [Field α] in
private theorem same_iff : same p q ↔ p = q := by
  simp [same, Scalar.same, ← le_antisymm_iff, Point.ext_iff]

omit [Field α] in
private theorem notAfter_iff : notAfter p q ↔ p.x < q.x ∨ p.x = q.x ∧ p.y ≤ q.y := by
  simp [notAfter, Scalar.same, ← le_antisymm_iff]

omit [Field α] in
theorem distinct_spec (points : List (Point α)) :
    (distinct points).Nodup ∧ ∀ q, q ∈ distinct points ↔ q ∈ points := by
  suffices fold : ∀ seen : List (Point α), seen.Nodup →
      (points.foldl (fun seen p => if seen.any (same p) then seen else seen ++ [p]) seen).Nodup ∧
      ∀ q, q ∈ points.foldl (fun seen p => if seen.any (same p) then seen else seen ++ [p]) seen ↔
        q ∈ seen ∨ q ∈ points by
    have whole := fold [] List.nodup_nil
    simp only [List.not_mem_nil, false_or] at whole
    exact whole
  induction points with
  | nil => simp
  | cons p points ih =>
    intro seen nodup
    have known : seen.any (same p) ↔ p ∈ seen := by
      simp [List.any_eq_true, same_iff]
    rw [List.foldl_cons]
    by_cases member : p ∈ seen
    · rw [if_pos (known.mpr member)]
      obtain ⟨distinct, all⟩ := ih seen nodup
      refine ⟨distinct, fun q => ?_⟩
      rw [all, List.mem_cons]
      constructor
      · tauto
      · rintro (old | rfl | later)
        · exact Or.inl old
        · exact Or.inl member
        · exact Or.inr later
    · rw [if_neg (known.not.mpr member)]
      obtain ⟨distinct, all⟩ := ih (seen ++ [p]) (List.nodup_append'.mpr
        ⟨nodup, List.nodup_singleton p, List.disjoint_singleton.mpr member⟩)
      refine ⟨distinct, fun q => ?_⟩
      rw [all, List.mem_append, List.mem_singleton, List.mem_cons, or_assoc]

omit [Field α] in
theorem mem_sorted : q ∈ sorted points ↔ q ∈ points := by
  rw [sorted, (List.mergeSort_perm _ _).mem_iff]
  exact (distinct_spec points).2 q

variable [IsStrictOrderedRing α]

theorem pairwise_sorted (points : List (Point α)) :
    (sorted points).Pairwise (Precedes rightward) := by
  have ordered : (sorted points).Pairwise (fun p q => notAfter p q) := by
    refine List.pairwise_mergeSort ?_ ?_ _
    · intro p q r first second
      rw [notAfter_iff] at first second ⊢
      rcases first with less | ⟨same, le⟩
      · rcases second with less' | ⟨same', -⟩
        · exact Or.inl (less.trans less')
        · exact Or.inl (same' ▸ less)
      · rw [same]
        exact second.imp id fun both => ⟨both.1, le.trans both.2⟩
    · intro p q
      rw [Bool.or_eq_true, notAfter_iff, notAfter_iff]
      rcases lt_trichotomy p.x q.x with less | same | greater
      · exact Or.inl (Or.inl less)
      · exact (le_total p.y q.y).imp (fun le => Or.inr ⟨same, le⟩) fun le => Or.inr ⟨same.symm, le⟩
      · exact Or.inr (Or.inl greater)
  have nodup : (sorted points).Nodup :=
    (List.mergeSort_perm _ _).nodup_iff.mpr (distinct_spec points).1
  refine (ordered.and nodup).imp ?_
  rintro p q ⟨before, apart⟩
  rw [notAfter_iff] at before
  simp only [Precedes, rightward, sub, sub_pos, sub_eq_zero]
  rcases before with less | ⟨same, le⟩
  · exact Or.inl less
  · refine Or.inr ⟨same.symm, le.lt_of_ne fun level => apart ?_⟩
    exact Point.ext_iff.mpr ⟨same, level⟩

end Point

variable {ahead : Point α → Prop} {seen path : List (Point α)}

/-- A path from the first of some points onwards with none of the points to its right, which turns
left at each of its points. -/
structure Spans (ahead : Point α → Prop) (seen path : List (Point α)) : Prop where
  first : path.head? = seen.head?
  subset : path ⊆ seen
  ordered : path.Pairwise (Precedes ahead)
  left : ∀ s ∈ links path, ∀ q ∈ seen, 0 ≤ turn s.1 s.2 q
  strict : ∀ s ∈ links path, ∀ q ∈ path, q ≠ s.1 → q ≠ s.2 → 0 < turn s.1 s.2 q

/-- The chain of a sweep, newest point first. -/
def sweep (points : List (Point α)) : List (Point α) :=
  points.foldl (fun chain p => extend p chain) []

private theorem head?_extend (p : Point α) (chain : List (Point α)) :
    (extend p chain).head? = some p := by
  fun_induction extend p chain with
  | case1 b a rest right ih => exact ih
  | case2 => rfl
  | case3 => rfl

namespace Spans

variable {a b p : Point α} {rest : List (Point α)}

private theorem drop (spans : Spans ahead seen (b :: a :: rest).reverse) :
    Spans ahead seen (a :: rest).reverse := by
  have within : ∀ q ∈ (a :: rest).reverse, q ∈ (b :: a :: rest).reverse := by
    intro q member
    rw [List.mem_reverse] at member ⊢
    exact List.mem_cons_of_mem b member
  have steps : ∀ s ∈ links (a :: rest).reverse, s ∈ links (b :: a :: rest).reverse := by
    intro s step
    rw [links_reverse_cons]
    exact List.mem_append_left _ step
  constructor
  · rw [← spans.first, List.reverse_cons (a := b), List.head?_append]
    simp
  · exact fun q member => spans.subset (within q member)
  · refine spans.ordered.sublist ?_
    rw [List.reverse_cons (a := b)]
    exact List.sublist_append_left _ _
  · exact fun s step => spans.left s (steps s step)
  · exact fun s step q member => spans.strict s (steps s step) q (within q member)

private theorem push (spans : Spans ahead seen (b :: rest).reverse)
    (before : ∀ q ∈ seen, Precedes ahead q p)
    (visible : ∀ s ∈ links (b :: rest).reverse, 0 < turn s.1 s.2 p)
    (behind : ∀ q ∈ seen, 0 ≤ turn b p q) (bent : ∀ q ∈ rest, 0 < turn b p q) :
    Spans ahead (seen ++ [p]) (p :: b :: rest).reverse := by
  have whole : (p :: b :: rest).reverse = (b :: rest).reverse ++ [p] := List.reverse_cons
  constructor
  · rw [whole, List.head?_append, List.head?_append, spans.first]
  · rw [whole]
    exact fun q member =>
      List.mem_append.mpr ((List.mem_append.mp member).imp_left (spans.subset ·))
  · rw [whole, List.pairwise_append]
    refine ⟨spans.ordered, List.pairwise_singleton _ _, fun q member r last => ?_⟩
    rw [List.mem_singleton.mp last]
    exact before q (spans.subset member)
  · intro s step q member
    rw [links_reverse_cons, List.mem_append, List.mem_singleton] at step
    rw [List.mem_append, List.mem_singleton] at member
    rcases step with old | rfl
    · rcases member with old' | rfl
      · exact spans.left s old q old'
      · exact (visible s old).le
    · rcases member with old' | rfl
      · exact behind q old'
      · rw [turn_right_self]
  · intro s step q member start stop
    rw [links_reverse_cons, List.mem_append, List.mem_singleton] at step
    rw [whole, List.mem_append, List.mem_singleton] at member
    rcases step with old | rfl
    · rcases member with old' | rfl
      · exact spans.strict s old q old' start stop
      · exact visible s old
    · rcases member with old' | rfl
      · rw [List.mem_reverse, List.mem_cons] at old'
        exact bent q (old'.resolve_left start)
      · exact absurd rfl stop

variable (heading : IsHeading ahead)

include heading

theorem bend {c : Point α} (spans : Spans ahead seen path) (before : (a, b) ∈ links path)
    (after : (b, c) ∈ links path) : 0 < turn a b c := by
  have ab : Precedes ahead a b := rel_of_mem_links spans.ordered before
  have bc : Precedes ahead b c := rel_of_mem_links spans.ordered after
  exact spans.strict _ before c (mem_of_mem_links after).2
    (heading.ne (heading.trans ab bc)).symm (heading.ne bc).symm

variable [IsStrictOrderedRing α]

private theorem visible (spans : Spans ahead seen (b :: a :: rest).reverse)
    (bp : Precedes ahead b p) (left : 0 < turn a b p) :
    ∀ s ∈ links (b :: a :: rest).reverse, 0 < turn s.1 s.2 p := by
  induction rest generalizing a b with
  | nil => simpa [links] using left
  | cons z rest ih =>
    have last : (a, b) ∈ links (b :: a :: z :: rest).reverse := by
      rw [links_reverse_cons]
      simp
    have before : (z, a) ∈ links (b :: a :: z :: rest).reverse := by
      rw [links_reverse_cons, links_reverse_cons]
      simp
    have ab : Precedes ahead a b := rel_of_mem_links spans.ordered last
    have za : Precedes ahead z a := rel_of_mem_links spans.ordered before
    have skip := heading.turn_pos_skip za ab bp (spans.bend heading before last) left
    intro s step
    rw [links_reverse_cons, List.mem_append, List.mem_singleton] at step
    rcases step with earlier | rfl
    · exact ih spans.drop (heading.trans ab bp) skip s earlier
    · exact left

/-- A step of a sweep: what the path leaves out is not to the right of the way to the new point. -/
private theorem extend (sorted : seen.Pairwise (Precedes ahead))
    (before : ∀ q ∈ seen, Precedes ahead q p) (spans : Spans ahead seen (b :: rest).reverse)
    (cleared : ∀ q ∈ seen, q = b ∨ Precedes ahead b q → 0 ≤ turn b p q) :
    Spans ahead (seen ++ [p]) (extend p (b :: rest)).reverse := by
  induction rest generalizing b with
  | nil =>
    -- The path is still at the first point, which precedes all others.
    have start : seen.head? = some b := spans.first.symm
    obtain ⟨others, rfl⟩ : ∃ others, seen = b :: others :=
      ⟨seen.tail, (List.eq_cons_of_mem_head? start)⟩
    have all : ∀ q ∈ b :: others, 0 ≤ turn b p q := by
      intro q inside
      refine cleared q inside ?_
      rcases List.mem_cons.mp inside with rfl | later
      · exact Or.inl rfl
      · exact Or.inr (List.rel_of_pairwise_cons sorted later)
    exact spans.push before (by simp [links]) all (by simp)
  | cons a rest ih =>
    have last : (a, b) ∈ links (b :: a :: rest).reverse := by
      rw [links_reverse_cons]
      simp
    have ab : Precedes ahead a b := rel_of_mem_links spans.ordered last
    have hb : b ∈ seen := spans.subset (by simp)
    have ha : a ∈ seen := spans.subset (by simp)
    rw [Geometry.extend]
    split
    · rename_i right
      rw [Nat.cast_zero] at right
      refine ih spans.drop fun q inside behind => ?_
      exact heading.turn_nonneg_after ab (before a ha) behind (spans.left _ last q inside) right
    · rename_i left
      rw [Nat.cast_zero, not_le] at left
      have bp : Precedes ahead b p := before b hb
      have bent : ∀ q ∈ seen, Precedes ahead q b → 0 < turn b p q := fun q inside qb =>
        heading.turn_pos_before ab bp qb (spans.left _ last q inside) left
      refine spans.push before (spans.visible heading bp left) ?_ ?_
      · intro q inside
        rcases eq_or_related sorted hb inside with same | behind | earlier
        · exact cleared q inside (Or.inl same)
        · exact cleared q inside (Or.inr behind)
        · exact (bent q inside earlier).le
      · intro q inside
        have own : q ∈ (a :: rest).reverse := List.mem_reverse.mpr inside
        refine bent q (spans.drop.subset own) ?_
        have ordered := spans.ordered
        rw [List.reverse_cons (a := b), List.pairwise_append] at ordered
        exact ordered.2.2 q own b (List.mem_singleton_self b)

end Spans

variable [IsStrictOrderedRing α]

/-- A sweep over points in the order of its heading runs from the first of them to the last. -/
theorem spans_sweep (heading : IsHeading ahead) {points : List (Point α)}
    (sorted : points.Pairwise (Precedes ahead)) :
    Spans ahead points (sweep points).reverse ∧ (sweep points).head? = points.getLast? := by
  induction points using List.reverseRecOn with
  | nil => exact ⟨⟨rfl, by simp [sweep], by simp [sweep], by simp [sweep, links],
      by simp [sweep, links]⟩, rfl⟩
  | append_singleton points p ih =>
    have step : sweep (points ++ [p]) = extend p (sweep points) := by
      rw [sweep, List.foldl_append]
      rfl
    rw [step, head?_extend, List.getLast?_concat]
    refine ⟨?_, rfl⟩
    rw [List.pairwise_append] at sorted
    have before : ∀ q ∈ points, Precedes ahead q p := fun q member =>
      sorted.2.2 q member p (List.mem_singleton_self p)
    obtain ⟨spans, last⟩ := ih sorted.1
    cases chain : sweep points with
    | nil =>
      rw [chain] at last
      obtain rfl := List.getLast?_eq_none_iff.mp last.symm
      exact ⟨rfl, by simp [extend], by simp [extend], by simp [extend, links],
        by simp [extend, links]⟩
    | cons b rest =>
      rw [chain] at spans last
      refine spans.extend heading sorted.1 before ?_
      -- The path ends at the last point, and nothing comes after it.
      obtain ⟨front, rfl⟩ := List.getLast?_eq_some_iff.mp last.symm
      intro q member behind
      have same : q = b := by
        rcases behind with same | later
        · exact same
        · rcases List.mem_append.mp member with earlier | last
          · have back := (List.pairwise_append.mp sorted.1).2.2 q earlier b
              (List.mem_singleton_self b)
            exact (heading.asymm later back).elim
          · exact List.mem_singleton.mp last
      rw [same, turn_outer_self]

end CapabilityAtlas.Geometry

/-!
The convex hull. The chains of two opposite sweeps over the same points close to a convex polygon
with all points to the left of its sides, unless the points are all on a line.
-/

namespace CapabilityAtlas.Geometry

variable {α : Type} [Field α] [LinearOrder α]

/-- Whether points are all on one line. -/
def OnLine (points : List (Point α)) : Prop :=
  ∀ a ∈ points, ∀ b ∈ points, ∀ c ∈ points, turn a b c = 0

instance decidableOnLine (points : List (Point α)) : Decidable (OnLine points) :=
  inferInstanceAs (Decidable (∀ a ∈ points, _))

omit [LinearOrder α] in
theorem onLine_of_flat {points : List (Point α)} {a z : Point α} (apart : a ≠ z)
    (flat : ∀ q ∈ points, turn a z q = 0) : OnLine points := by
  intro p hp q hq r hr
  obtain ⟨i, rfl⟩ := exists_along apart (flat p hp)
  obtain ⟨j, rfl⟩ := exists_along apart (flat q hq)
  obtain ⟨k, rfl⟩ := exists_along apart (flat r hr)
  unfold turn along
  ring

variable [IsStrictOrderedRing α] {ahead : Point α → Prop}

section Chains

variable {points l u : List (Point α)} {a b c z : Point α}

/-- Where a way ahead meets one back, none of the points being to the right of either, there is a
left turn. -/
private theorem bend_of_peak (heading : IsHeading ahead) (spread : ¬ OnLine points)
    (ab : Precedes ahead a b) (cb : Precedes ahead c b) (member : c ∈ points)
    (first : ∀ q ∈ points, 0 ≤ turn a b q) (second : ∀ q ∈ points, 0 ≤ turn b c q) :
    0 < turn a b c := by
  refine (first c member).lt_of_ne' fun flat => spread ?_
  refine onLine_of_flat (heading.ne ab) fun q inside => ?_
  exact heading.flat_of_flat_peak ab cb (first q inside) (second q inside) flat

/-- A polygon around some points, with its vertices among them. -/
structure IsHullOf (points hull : List (Point α)) : Prop extends IsConvexCycle hull where
  subset : hull ⊆ points
  encloses : ∀ s ∈ sides hull, ∀ q ∈ points, 0 ≤ turn s.1 s.2 q

variable (spread : ¬ OnLine points) (lower : Spans rightward points (a :: l ++ [z]))
  (upper : Spans leftward points.reverse (z :: u ++ [a]))

include spread lower upper

private theorem enough_of_spans : 3 ≤ (a :: l ++ z :: u).length := by
  by_contra few
  obtain ⟨rfl, rfl⟩ : l = [] ∧ u = [] := by
    simp only [List.length_append, List.length_cons] at few
    exact ⟨List.eq_nil_of_length_eq_zero (by omega), List.eq_nil_of_length_eq_zero (by omega)⟩
  have step : (a, z) ∈ links [a, z] := List.mem_cons_self
  have step' : (z, a) ∈ links [z, a] := List.mem_cons_self
  have apart : a ≠ z := isHeading_rightward.ne (rel_of_mem_links lower.ordered step)
  refine spread (onLine_of_flat apart fun q member => ?_)
  have first := lower.left _ step q member
  have second := upper.left _ step' q (List.mem_reverse.mpr member)
  rw [turn_swap] at second
  linarith

omit spread in
private theorem disjoint_of_spans : List.Disjoint (a :: l) (z :: u) := by
  intro b first second
  have notLast : b ≠ z := by
    have nodup := lower.ordered.imp isHeading_rightward.ne
    rw [List.pairwise_append] at nodup
    exact nodup.2.2 b first z (List.mem_singleton_self z)
  have notFirst : b ≠ a := by
    have nodup := upper.ordered.imp isHeading_leftward.ne
    rw [List.pairwise_append] at nodup
    exact nodup.2.2 b second a (List.mem_singleton_self a)
  obtain ⟨v, into⟩ : ∃ v, (v, b) ∈ links (a :: l ++ [z]) :=
    exists_link_to (List.mem_append_left _ ((List.mem_cons.mp first).resolve_left notFirst))
  obtain ⟨w, into'⟩ : ∃ w, (w, b) ∈ links (z :: u ++ [a]) :=
    exists_link_to (List.mem_append_left _ ((List.mem_cons.mp second).resolve_left notLast))
  obtain ⟨q, out⟩ := exists_link_from z first
  have vb := rel_of_mem_links lower.ordered into
  have bw := precedes_leftward_iff.mp (rel_of_mem_links upper.ordered into')
  have hv := lower.subset (mem_of_mem_links into).1
  have hw := List.mem_reverse.mp (upper.subset (mem_of_mem_links into').1)
  have hq := lower.subset (mem_of_mem_links out).2
  -- Both chains would pass straight on there, and the lower one turns.
  have bend := lower.bend isHeading_rightward into out
  have right := isHeading_rightward.turn_neg_against vb bw (lower.left _ into w hw)
    (upper.left _ into' v (List.mem_reverse.mpr hv)) bend
  exact right.not_ge (upper.left _ into' q (List.mem_reverse.mpr hq))

omit spread [IsStrictOrderedRing α] in
private theorem encloses_of_spans {s : Point α × Point α} (side : s ∈ sides (a :: l ++ z :: u)) :
    ∀ q ∈ points, 0 ≤ turn s.1 s.2 q := by
  intro q member
  rw [sides_append, List.mem_append] at side
  rcases side with below | above
  · exact lower.left s below q member
  · exact upper.left s above q (List.mem_reverse.mpr member)

omit spread [IsStrictOrderedRing α] in
private theorem subset_of_spans : a :: l ++ z :: u ⊆ points := by
  intro q member
  rcases List.mem_append.mp member with below | above
  · exact lower.subset (List.mem_append_left _ below)
  · exact List.mem_reverse.mp (upper.subset (List.mem_append_left _ above))

private theorem bend_of_spans {p q r : Point α} (before : (p, q) ∈ sides (a :: l ++ z :: u))
    (after : (q, r) ∈ sides (a :: l ++ z :: u)) : 0 < turn p q r := by
  have member := subset_of_spans lower upper (mem_of_mem_sides after).2
  have first := encloses_of_spans lower upper before
  have second := encloses_of_spans lower upper after
  rw [sides_append, List.mem_append] at before after
  rcases before with below | above
  · have pq := rel_of_mem_links lower.ordered below
    rcases after with below' | above'
    · exact lower.bend isHeading_rightward below below'
    · have rq := precedes_leftward_iff.mp (rel_of_mem_links upper.ordered above')
      exact bend_of_peak isHeading_rightward spread pq rq member first second
  · have pq := rel_of_mem_links upper.ordered above
    rcases after with below' | above'
    · have rq := precedes_leftward_iff.mpr (rel_of_mem_links lower.ordered below')
      exact bend_of_peak isHeading_leftward spread pq rq member first second
    · exact upper.bend isHeading_leftward above above'

/-- The chains of two opposite sweeps close to a hull. -/
theorem isHullOf_of_spans : IsHullOf points (a :: l ++ z :: u) := by
  have subset := subset_of_spans lower upper
  have encloses : ∀ s ∈ sides (a :: l ++ z :: u), ∀ q ∈ points, 0 ≤ turn s.1 s.2 q :=
    fun s side => encloses_of_spans lower upper side
  have nodup : (a :: l ++ z :: u).Nodup := by
    refine List.nodup_append'.mpr ⟨?_, ?_, disjoint_of_spans lower upper⟩
    · exact (List.nodup_append'.mp (lower.ordered.imp isHeading_rightward.ne)).1
    · exact (List.nodup_append'.mp (upper.ordered.imp isHeading_leftward.ne)).1
  have convex : IsConvexCycle (a :: l ++ z :: u) :=
    isConvexCycle_of_bends (enough_of_spans spread lower upper) nodup
      (fun s side p member => encloses s side p (subset member))
      fun p q r before after => bend_of_spans spread lower upper before after
  exact ⟨convex, subset, encloses⟩

end Chains

/-- A sweep from one point to another one keeps a chain from the first to before the last. -/
private theorem exists_openChain_eq (heading : IsHeading ahead) {a z : Point α}
    {mid : List (Point α)} (sorted : (a :: mid ++ [z]).Pairwise (Precedes ahead)) :
    ∃ l, openChain (a :: mid ++ [z]) = a :: l ∧ Spans ahead (a :: mid ++ [z]) (a :: l ++ [z]) := by
  obtain ⟨spans, last⟩ := spans_sweep heading sorted
  rw [List.getLast?_concat, List.head?_eq_some_iff] at last
  obtain ⟨chain, swept⟩ := last
  have opened : openChain (a :: mid ++ [z]) = chain.reverse := by
    change (sweep (a :: mid ++ [z])).tail.reverse = _
    rw [swept, List.tail_cons]
  rw [swept, List.reverse_cons] at spans
  have apart : a ≠ z := heading.ne (List.rel_of_pairwise_cons sorted (by simp))
  have first := spans.first
  rw [opened]
  cases path : chain.reverse with
  | nil =>
    rw [path] at first
    exact (apart (Option.some.inj first).symm).elim
  | cons b l =>
    rw [path] at first spans
    obtain rfl : b = a := Option.some.inj first
    exact ⟨l, rfl, spans⟩

omit [IsStrictOrderedRing α] in
theorem three_le_length_sorted {points : List (Point α)} (spread : ¬ OnLine points) :
    3 ≤ (Point.sorted points).length := by
  unfold OnLine at spread
  push Not at spread
  obtain ⟨p, hp, q, hq, r, hr, bend⟩ := spread
  have nodup : [p, q, r].Nodup := by
    have first : p ≠ q := fun same => bend (by rw [same, turn_left_self])
    have second : p ≠ r := fun same => bend (by rw [same, turn_outer_self])
    have third : q ≠ r := fun same => bend (by rw [same, turn_right_self])
    simp [first, second, third]
  have covered : [p, q, r] ⊆ Point.sorted points := by
    simp only [List.cons_subset, Point.mem_sorted, List.nil_subset, and_true]
    exact ⟨hp, hq, hr⟩
  exact (nodup.subperm covered).length_le

omit [Field α] [LinearOrder α] [IsStrictOrderedRing α] in
private theorem exists_ends {points : List (Point α)} (several : 3 ≤ points.length) :
    ∃ a mid z, points = a :: mid ++ [z] := by
  cases points with
  | nil => simp at several
  | cons a rest =>
    rcases List.eq_nil_or_concat rest with rfl | ⟨mid, z, rfl⟩
    · simp at several
    · exact ⟨a, mid, z, by simp⟩

/-- The hull of three or more points consists of the chains of both sweeps, unless these are too
short to enclose anything. -/
theorem exists_chains {points : List (Point α)} (several : 3 ≤ (Point.sorted points).length) :
    ∃ a mid z l u, Point.sorted points = a :: mid ++ [z] ∧
      Spans rightward (Point.sorted points) (a :: l ++ [z]) ∧
      Spans leftward (Point.sorted points).reverse (z :: u ++ [a]) ∧
      convexHull points = if (a :: l ++ z :: u).length < 3 then [a, z] else a :: l ++ z :: u := by
  obtain ⟨a, mid, z, split⟩ := exists_ends several
  have sorted := Point.pairwise_sorted points
  rw [split] at sorted
  obtain ⟨l, below, lower⟩ := exists_openChain_eq isHeading_rightward sorted
  have back : (a :: mid ++ [z]).reverse = z :: mid.reverse ++ [a] := by simp
  have sorted' : (a :: mid ++ [z]).reverse.Pairwise (Precedes leftward) := by
    rw [List.pairwise_reverse]
    exact sorted.imp precedes_leftward_iff.mpr
  rw [back] at sorted'
  obtain ⟨u, above, upper⟩ := exists_openChain_eq isHeading_leftward sorted'
  rw [← back] at above upper
  refine ⟨a, mid, z, l, u, split, split ▸ lower, split ▸ upper, ?_⟩
  have extremes : ends (a :: mid ++ [z]) = [a, z] := by
    rw [ends, List.getLast?_concat]
    rfl
  rw [convexHull, hullOfSorted, if_neg (Nat.not_lt.mpr several), split]
  simp only [below, above, extremes]

/-- Points that are not all on one line have a convex polygon as their hull. -/
theorem isHullOf_convexHull {points : List (Point α)} (spread : ¬ OnLine points) :
    IsHullOf points (convexHull points) := by
  obtain ⟨a, mid, z, l, u, -, lower, upper, whole⟩ := exists_chains (three_le_length_sorted spread)
  have spread' : ¬ OnLine (Point.sorted points) := by
    simpa only [OnLine, Point.mem_sorted] using spread
  have hull := isHullOf_of_spans spread' lower upper
  rw [if_neg (Nat.not_lt.mpr hull.enough)] at whole
  rw [whole]
  refine ⟨hull.toIsConvexCycle, fun q member => ?_, fun s side q member => ?_⟩
  · rw [← Point.mem_sorted]
    exact hull.subset member
  · rw [← Point.mem_sorted] at member
    exact hull.encloses s side q member

end CapabilityAtlas.Geometry
