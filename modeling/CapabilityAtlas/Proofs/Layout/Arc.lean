import CapabilityAtlas.Layout.Ring
import Mathlib.Algebra.Order.Field.Basic
import Mathlib.Data.List.Chain
import Mathlib.Tactic.FieldSimp
import Mathlib.Tactic.Linarith
import Mathlib.Tactic.LinearCombination
import Mathlib.Tactic.Positivity
import Mathlib.Tactic.Ring

set_option autoImplicit false
set_option relaxedAutoImplicit false

/-!
The arcs of a ring in exact numbers. Read group by group, each arc begins where the one before it
ends and the spacing is over, and what is left of a full turn after the last arc is the spacing
that the first arc needs before it. So arcs never overlap, whether their spacing is kept or
dropped.
-/

namespace CapabilityAtlas.Layout

section Runs

variable {α : Type} [Add α] [Mul α] [NatCast α] (spacing : Spacing α) (width : α)

def arcAt (index group : Nat) : Arc α :=
  let start := (index : α) * (width + spacing.padding) + (group : α) * spacing.gap
  { start := start, stop := start + width }

/-- The arcs of some groups, each group by itself, after as many entities and groups as given. -/
def runsFrom (index group : Nat) : List Int → List (List (Arc α))
  | [] => []
  | size :: rest =>
    (List.range' index size.toNat).map (arcAt spacing width · group) ::
      runsFrom (index + size.toNat) (group + 1) rest

private theorem map_arcAt_zipIdx_replicate (count group index : Nat) :
    ((List.replicate count group).zipIdx index).map
        (fun slot => arcAt spacing width slot.2 slot.1) =
      (List.range' index count).map (arcAt spacing width · group) := by
  induction count generalizing index with
  | zero => rfl
  | succ count ih =>
    rw [List.replicate_succ, List.zipIdx_cons, List.map_cons, ih, List.range'_succ, List.map_cons]

private theorem arcsOfWidth_eq_flatten [Sub α] [Div α] (sizes : List Int) :
    arcsOfWidth sizes spacing width = (runsFrom spacing width 0 0 sizes).flatten := by
  have numbered : ∀ index group : Nat, (((sizes.zipIdx group).flatMap (fun g =>
      List.replicate g.1.toNat g.2)).zipIdx index).map
        (fun slot => arcAt spacing width slot.2 slot.1) =
      (runsFrom spacing width index group sizes).flatten := by
    induction sizes with
    | nil => exact fun _ _ => rfl
    | cons size rest ih =>
      intro index group
      rw [List.zipIdx_cons, List.flatMap_cons, List.zipIdx_append, List.map_append,
        map_arcAt_zipIdx_replicate, List.length_replicate, ih, runsFrom, List.flatten_cons]
  rw [arcsOfWidth, slots, List.map_map, ← numbered 0 0]
  rfl

private theorem map_length_runsFrom {sizes : List Int} (index group : Nat)
    (each : ∀ size ∈ sizes, 1 ≤ size) :
    (runsFrom spacing width index group sizes).map (fun run => (run.length : Int)) = sizes := by
  induction sizes generalizing index group with
  | nil => rfl
  | cons size rest ih =>
    obtain ⟨first, later⟩ := List.forall_mem_cons.mp each
    rw [runsFrom, List.map_cons, ih _ _ later, List.length_map, List.length_range']
    congr 1
    omega

private theorem head?_flatten_runsFrom {size : Int} {rest : List Int} (index group : Nat)
    (filled : 1 ≤ size) : (runsFrom spacing width index group (size :: rest)).flatten.head? =
      some (arcAt spacing width index group) := by
  have positive : size.toNat ≠ 0 := by omega
  rw [runsFrom, List.flatten_cons, List.head?_append, List.head?_map, List.head?_range',
    if_neg positive]
  rfl

end Runs

variable {α : Type} [Field α]

section Chains

variable (spacing : Spacing α) (width : α)

private theorem start_arcAt_succ (index group : Nat) :
    (arcAt spacing width (index + 1) group).start =
      (arcAt spacing width index group).stop + spacing.padding := by
  simp only [arcAt]
  push_cast
  ring

private theorem start_arcAt_succ_succ (index group : Nat) :
    (arcAt spacing width (index + 1) (group + 1)).start =
      (arcAt spacing width index group).stop + (spacing.padding + spacing.gap) := by
  simp only [arcAt]
  push_cast
  ring

private theorem isChain_of_mem_runsFrom {sizes : List Int} {index group : Nat} {run : List (Arc α)}
    (member : run ∈ runsFrom spacing width index group sizes) :
    run.IsChain (fun a b => b.start = a.stop + spacing.padding) := by
  induction sizes generalizing index group with
  | nil => simp [runsFrom] at member
  | cons size rest ih =>
    rw [runsFrom, List.mem_cons] at member
    rcases member with rfl | later
    · rw [List.isChain_map]
      refine (List.isChain_range' index size.toNat 1).imp ?_
      rintro i _ rfl
      exact start_arcAt_succ spacing width i group
    · exact ih later

private theorem isChain_runsFrom (sizes : List Int) (index group : Nat) :
    (runsFrom spacing width index group sizes).IsChain (fun run next =>
      ∀ a ∈ run.getLast?, ∀ b ∈ next.head?,
        b.start = a.stop + (spacing.padding + spacing.gap)) := by
  induction sizes generalizing index group with
  | nil => exact .nil
  | cons size rest ih =>
    rw [runsFrom, List.isChain_cons]
    refine ⟨?_, ih _ _⟩
    intro next listed a last b first
    cases rest with
    | nil => simp [runsFrom] at listed
    | cons size' rest =>
      obtain rfl := Option.some.inj listed
      rw [Option.mem_def, List.getLast?_map, List.getLast?_range', Option.map_eq_some_iff] at last
      rw [Option.mem_def, List.head?_map, List.head?_range', Option.map_eq_some_iff] at first
      obtain ⟨i, number, rfl⟩ := last
      obtain ⟨j, number', rfl⟩ := first
      split_ifs at number number' with final final'
      obtain rfl := Option.some.inj number'
      have after : index + size.toNat = i + 1 := by
        have last := Option.some.inj number
        omega
      rw [after, start_arcAt_succ_succ]

private theorem getLast?_flatten_runsFrom {sizes : List Int} (index group : Nat)
    (nonempty : sizes ≠ []) (each : ∀ size ∈ sizes, 1 ≤ size) :
    (runsFrom spacing width index group sizes).flatten.getLast?.map
        (fun a => a.stop + (spacing.padding + spacing.gap)) =
      some ((index + (sizes.sum : Int)) * (width + spacing.padding) +
        (group + sizes.length) * spacing.gap : α) := by
  induction sizes generalizing index group with
  | nil => exact (nonempty rfl).elim
  | cons size rest ih =>
    obtain ⟨first, later⟩ := List.forall_mem_cons.mp each
    have count : ((size.toNat : Nat) : α) = ((size : Int) : α) := by
      have back := Int.toNat_of_nonneg (a := size) (by omega)
      exact_mod_cast congrArg (Int.cast (R := α)) back
    rw [runsFrom, List.flatten_cons, List.getLast?_append]
    cases rest with
    | nil =>
      rw [runsFrom, List.flatten_nil, List.getLast?_nil, Option.none_or, List.getLast?_map,
        List.getLast?_range', if_neg (by omega), Option.map_some, Option.map_some]
      have after : index + size.toNat - 1 + 1 = index + size.toNat := by omega
      rw [← start_arcAt_succ_succ, after]
      simp only [arcAt, List.sum_singleton, List.length_singleton]
      push_cast
      rw [count]
    | cons size' rest =>
      have more := ih (index + size.toNat) (group + 1) (List.cons_ne_nil _ _) later
      obtain ⟨a, last, stop⟩ := Option.map_eq_some_iff.mp more
      rw [last, Option.some_or, Option.map_some, stop]
      simp only [List.sum_cons, List.length_cons]
      push_cast
      rw [count]
      exact congrArg some (by ring)

end Chains

private theorem scalar_ofInt_eq (n : Int) : (Scalar.ofInt n : α) = (n : α) := by
  rw [Scalar.ofInt, ← Int.cast_natCast, ← Int.cast_natCast (R := α) (-n).toNat, ← Int.cast_sub,
    Int.toNat_sub_toNat_neg]

private theorem entityCount_eq_sum (sizes : List Int) : entityCount sizes = sizes.sum := by
  induction sizes with
  | nil => rfl
  | cons size rest ih => rw [entityCount, ih, List.sum_cons]

/-- The part of a turn that the spacing of some groups takes; a single group has no gap. -/
def spacingWidth (sizes : List Int) (spacing : Spacing α) : α :=
  spacing.padding * (sizes.sum : Int) +
    spacing.gap * (if 1 < sizes.length then sizes.length else 0 : Nat)

private theorem room_eq (turn : α) (sizes : List Int) (spacing : Spacing α) :
    room turn sizes spacing = turn - spacingWidth sizes spacing := by
  rw [room, scalar_ofInt_eq, entityCount_eq_sum, gapCount, spacingWidth, sub_sub]

/-- Whether arcs, group by group, fill a full turn. All of them have one width, each but the first
begins where the one before it and the spacing after that one end, and what is left of the turn
after the last arc is its spacing. -/
structure FillsTurn (turn : α) (spacing : Spacing α) (width : α) (runs : List (List (Arc α))) :
    Prop where
  wide : ∀ a ∈ runs.flatten, a.stop = a.start + width
  first : runs.flatten.head?.map Arc.start = some 0
  inside : ∀ run ∈ runs, run.IsChain (fun a b => b.start = a.stop + spacing.padding)
  between : runs.IsChain (fun run next => ∀ a ∈ run.getLast?, ∀ b ∈ next.head?,
    b.start = a.stop + (spacing.padding + spacing.gap))
  last : runs.flatten.getLast?.map (fun a =>
    a.stop + (spacing.padding + if 1 < runs.length then spacing.gap else 0)) = some turn

theorem fillsTurn_runsFrom {turn width : α} {spacing : Spacing α} {sizes : List Int}
    (nonempty : sizes ≠ []) (each : ∀ size ∈ sizes, 1 ≤ size)
    (total : width * (sizes.sum : Int) + spacingWidth sizes spacing = turn) :
    FillsTurn turn spacing width (runsFrom spacing width 0 0 sizes) where
  wide := by
    intro a member
    rw [← arcsOfWidth_eq_flatten, arcsOfWidth] at member
    obtain ⟨slot, -, rfl⟩ := List.mem_map.mp member
    rfl
  first := by
    cases sizes with
    | nil => exact (nonempty rfl).elim
    | cons size rest =>
      rw [head?_flatten_runsFrom _ _ _ _ (each size List.mem_cons_self)]
      simp [arcAt]
  inside := fun run member => isChain_of_mem_runsFrom spacing width member
  between := isChain_runsFrom spacing width sizes 0 0
  last := by
    have count : (runsFrom spacing width 0 0 sizes).length = sizes.length := by
      have lengths := congrArg List.length (map_length_runsFrom spacing width 0 0 each)
      rwa [List.length_map] at lengths
    obtain ⟨a, last, stop⟩ :=
      Option.map_eq_some_iff.mp (getLast?_flatten_runsFrom spacing width 0 0 nonempty each)
    rw [last, Option.map_some, count, ← total, spacingWidth]
    refine congrArg some ?_
    split_ifs with several
    · linear_combination stop
    · have one : sizes.length = 1 := by
        have := List.length_pos_of_ne_nil nonempty
        omega
      rw [one] at stop
      push_cast at stop ⊢
      linear_combination stop

section Order

variable [LinearOrder α] [IsStrictOrderedRing α] {turn width : α} {spacing : Spacing α}

namespace FillsTurn

variable {runs : List (List (Arc α))} (fills : FillsTurn turn spacing width runs)
  (inhabited : [] ∉ runs) (padding : 0 ≤ spacing.padding) (gap : 0 ≤ spacing.gap)
  (positive : 0 < width)

include fills inhabited padding gap positive

private theorem pairwise_before :
    runs.flatten.Pairwise (fun a b => a.start < b.start ∧ a.stop ≤ b.start) := by
  have follow : runs.flatten.IsChain (fun a b => a.stop ≤ b.start) := by
    rw [List.isChain_flatten inhabited]
    constructor
    · intro run member
      refine (fills.inside run member).imp fun a b next => ?_
      rw [next]
      exact le_add_of_nonneg_right padding
    · refine fills.between.imp fun run run' next a last b first => ?_
      rw [next a last b first]
      exact le_add_of_nonneg_right (add_nonneg padding gap)
  -- Only with the width of the arcs in between the relation is transitive.
  have apart : runs.flatten.IsChain (fun a b => a.start + width ≤ b.start) :=
    List.IsChain.imp_of_mem_imp (fun a b member _ le => fills.wide a member ▸ le) follow
  have : IsTrans (Arc α) (fun a b => a.start + width ≤ b.start) :=
    ⟨fun _ _ _ first second => by linarith⟩
  refine (List.isChain_iff_pairwise.mp apart).imp_of_mem fun {a b} member _ le => ?_
  rw [fills.wide a member]
  exact ⟨by linarith, le⟩

private theorem bounds {a : Arc α} (member : a ∈ runs.flatten) : 0 ≤ a.start ∧ a.stop ≤ turn := by
  have before := fills.pairwise_before inhabited padding gap positive
  constructor
  · obtain ⟨first, head, start⟩ := Option.map_eq_some_iff.mp fills.first
    obtain ⟨rest, split⟩ := List.head?_eq_some_iff.mp head
    rw [split] at member before
    rcases List.mem_cons.mp member with rfl | later
    · exact start.ge
    · have less := ((List.pairwise_cons.mp before).1 a later).1
      linarith
  · obtain ⟨last, tail, stop⟩ := Option.map_eq_some_iff.mp fills.last
    have inside : last.stop ≤ turn := by
      rw [← stop]
      refine le_add_of_nonneg_right (add_nonneg padding ?_)
      split_ifs
      · exact gap
      · exact le_rfl
    obtain ⟨rest, split⟩ := List.getLast?_eq_some_iff.mp tail
    have wide := fills.wide last (List.mem_of_getLast? tail)
    rw [split] at member before
    rcases List.mem_append.mp member with earlier | own
    · have less := (List.pairwise_append.mp before).2.2 a earlier last (List.mem_singleton_self _)
      linarith
    · rwa [List.mem_singleton.mp own]

end FillsTurn

/-- The spacing that is kept: none where all of it leaves no room in the turn. -/
def Spacing.within (turn : α) (sizes : List Int) (spacing : Spacing α) : Spacing α :=
  if turn ≤ spacingWidth sizes spacing then { padding := 0, gap := 0 } else spacing

variable {sizes : List Int}

omit [IsStrictOrderedRing α] in
private theorem Spacing.within_nonneg (turn : α) (sizes : List Int) (padding : 0 ≤ spacing.padding)
    (gap : 0 ≤ spacing.gap) :
    0 ≤ (spacing.within turn sizes).padding ∧ 0 ≤ (spacing.within turn sizes).gap := by
  unfold Spacing.within
  split_ifs
  · exact ⟨le_rfl, le_rfl⟩
  · exact ⟨padding, gap⟩

omit [IsStrictOrderedRing α] in
private theorem spacingWidth_within_lt (sizes : List Int) (spacing : Spacing α)
    (positive : 0 < turn) :
    spacingWidth sizes (spacing.within turn sizes) < turn := by
  unfold Spacing.within
  split_ifs with full
  · simpa [spacingWidth] using positive
  · exact not_le.mp full

/-- Whether or not there is room, the arcs have one width and the spacing that is kept, and both
together take the full turn. -/
private theorem exists_arcs_eq (spacing : Spacing α) (count : 0 < sizes.sum) (positive : 0 < turn) :
    ∃ width > 0, arcs turn sizes spacing = arcsOfWidth sizes (spacing.within turn sizes) width ∧
      width * (sizes.sum : Int) + spacingWidth sizes (spacing.within turn sizes) = turn := by
  have count' : (0 : α) < (sizes.sum : Int) := Int.cast_pos.mpr count
  have left := sub_pos.mpr (spacingWidth_within_lt sizes spacing positive)
  have full : room turn sizes spacing ≤ ((0 : Nat) : α) ↔ turn ≤ spacingWidth sizes spacing := by
    rw [room_eq, Nat.cast_zero, sub_nonpos]
  refine ⟨(turn - spacingWidth sizes (spacing.within turn sizes)) / (sizes.sum : Int),
    div_pos left count', ?_, by rw [div_mul_cancel₀ _ count'.ne', sub_add_cancel]⟩
  unfold arcs Spacing.within
  rw [entityCount_eq_sum, if_neg count.ne', scalar_ofInt_eq]
  by_cases tight : turn ≤ spacingWidth sizes spacing
  · rw [if_pos (full.mpr tight), if_pos tight]
    simp [spacingWidth]
  · rw [if_neg (full.not.mpr tight), if_neg tight, room_eq]

/-- The arcs of some groups fill a full turn, each group with as many arcs as its size says and all
arcs of one width, which is positive. The spacing is kept unless it leaves no room; then there is
none. Either way each arc ends before the next one begins, and the last one within the turn. -/
theorem arcs_fill_turn (nonempty : sizes ≠ []) (each : ∀ size ∈ sizes, 1 ≤ size)
    (positive : 0 < turn) (padding : 0 ≤ spacing.padding) (gap : 0 ≤ spacing.gap) :
    ∃ width > 0, ∃ runs : List (List (Arc α)), arcs turn sizes spacing = runs.flatten ∧
      runs.map (fun run => (run.length : Int)) = sizes ∧
      FillsTurn turn
        (if turn ≤ spacing.padding * (sizes.sum : Int) +
            spacing.gap * (if 1 < sizes.length then sizes.length else 0 : Nat)
          then { padding := 0, gap := 0 } else spacing) width runs ∧
      (arcs turn sizes spacing).Pairwise (fun a b => a.start < b.start ∧ a.stop ≤ b.start) ∧
      ∀ a ∈ arcs turn sizes spacing, 0 ≤ a.start ∧ a.stop ≤ turn := by
  have count : 0 < sizes.sum := by
    have lengths : (sizes.length : Int) ≤ sizes.sum := by
      simpa using List.card_nsmul_le_sum sizes 1 each
    have := List.length_pos_of_ne_nil nonempty
    omega
  obtain ⟨width, wide, same, total⟩ := exists_arcs_eq spacing count positive
  obtain ⟨padding', gap'⟩ := Spacing.within_nonneg turn sizes padding gap
  have lengths := map_length_runsFrom (spacing.within turn sizes) width 0 0 each
  have fills := fillsTurn_runsFrom nonempty each total
  have inhabited : [] ∉ runsFrom (spacing.within turn sizes) width 0 0 sizes := by
    intro member
    have empty : (0 : Int) ∈ sizes :=
      lengths ▸ List.mem_map_of_mem (f := fun run => (run.length : Int)) member
    exact absurd (each 0 empty) (by decide)
  rw [same, arcsOfWidth_eq_flatten]
  exact ⟨width, wide, _, rfl, lengths, fills,
    fills.pairwise_before inhabited padding' gap' wide,
    fun a member => fills.bounds inhabited padding' gap' wide member⟩

theorem arcs_fill_turn_of_pair : ∃ width > 0, ∃ runs : List (List (Arc ℚ)),
    arcs (1 : ℚ) [1, 3] { padding := 1 / 16, gap := 1 / 4 } = runs.flatten ∧
      runs.map (fun run => (run.length : Int)) = [1, 3] ∧
      FillsTurn (1 : ℚ) { padding := 1 / 16, gap := 1 / 4 } width runs := by
  have each : ∀ size ∈ ([1, 3] : List Int), 1 ≤ size := by decide
  have padding : 0 ≤ ({ padding := 1 / 16, gap := 1 / 4 } : Spacing ℚ).padding := by norm_num
  have gap : 0 ≤ ({ padding := 1 / 16, gap := 1 / 4 } : Spacing ℚ).gap := by norm_num
  obtain ⟨width, positive, runs, same, lengths, fills, -⟩ :=
    arcs_fill_turn (by decide) each one_pos padding gap
  rw [if_neg (by norm_num)] at fills
  exact ⟨width, positive, runs, same, lengths, fills⟩

end Order

end CapabilityAtlas.Layout
