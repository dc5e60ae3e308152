import CapabilityAtlas.Proofs.Layout.Timeline
import Mathlib.Algebra.Order.Floor.Ring
import Mathlib.Data.Rat.Floor
import Mathlib.Order.CompletePartialOrder
import Mathlib.Order.Interval.Set.Disjoint
import Mathlib.Tactic.Linarith
import Mathlib.Tactic.Ring

set_option autoImplicit false
set_option relaxedAutoImplicit false

/-!
The grid of a timeline in exact numbers. Every bucket takes the rows below those of the buckets
before it, as many as its last card needs, and every card takes a cell of its own. So no two cards
overlap, and a separator has all earlier cards above it.
-/

namespace CapabilityAtlas.Layout

open CapabilityAtlas.Hierarchy

/-- Of exact numbers the whole quotient is the quotient rounded down. -/
instance rationalWholeQuotient : WholeQuotient ℚ := ⟨fun x y => .ok ⌊x / y⌋⟩

private theorem rowCount_eq {count columns : Nat} (filled : 0 < count) (positive : 0 < columns) :
    rowCount count columns = (count - 1) / columns + 1 := by
  have shift : count + columns - 1 = count - 1 + columns := by omega
  rw [rowCount, shift, Nat.add_div_right _ positive]

private theorem row_lt_rowCount {index count columns : Nat} (below : index < count)
    (positive : 0 < columns) : index / columns < rowCount count columns := by
  have last : index / columns ≤ (count - 1) / columns :=
    Nat.div_le_div_right (by omega)
  rw [rowCount_eq (by omega) positive]
  omega

section Areas

variable {α : Type}

/-- The rectangle of a card, without its right and its lower border. -/
def Card.area [Add α] [Preorder α] (style : TimelineStyle α) (c : Card α) : Set (α × α) :=
  Set.Ico c.position.x (c.position.x + style.cardWidth) ×ˢ
    Set.Ico c.position.y (c.position.y + style.rowHeight)

variable [Add α] [LinearOrder α] {style : TimelineStyle α} {c d : Card α}

omit [Add α] in
private theorem disjoint_Ico_of_le {a b c d : α} (le : b ≤ c) :
    Disjoint (Set.Ico a b) (Set.Ico c d) := by
  rw [Set.Ico_disjoint_Ico]
  exact (min_le_left b d).trans (le.trans (le_max_right a c))

private theorem Card.disjoint_of_beside (beside : c.position.x + style.cardWidth ≤ d.position.x) :
    Disjoint (c.area style) (d.area style) := by
  apply Set.Disjoint.set_prod_left
  exact disjoint_Ico_of_le beside

private theorem Card.disjoint_of_below (below : c.position.y + style.rowHeight ≤ d.position.y) :
    Disjoint (c.area style) (d.area style) := by
  apply Set.Disjoint.set_prod_right
  exact disjoint_Ico_of_le below

end Areas

section Rows

variable {α : Type} [Field α] [LinearOrder α] [IsStrictOrderedRing α] {style : TimelineStyle α}
  {columns : Nat} {bucket : Bucket} {y : α} {index count : Nat}

private theorem step_le {width : α} (nonneg : 0 ≤ width) {few many : Nat} (less : few < many) :
    (few : α) * width + width ≤ (many : α) * width := by
  have step : ((few + 1 : Nat) : α) ≤ (many : α) := Nat.cast_le.mpr less
  calc (few : α) * width + width = ((few + 1 : Nat) : α) * width := by
        rw [Nat.cast_add, Nat.cast_one]
        ring
    _ ≤ (many : α) * width := mul_le_mul_of_nonneg_right step nonneg

private theorem sides_card (t : Hierarchy.Tree) (positive : 0 < columns)
    (width : 0 ≤ style.cardWidth) :
    style.marginX ≤ (card style columns bucket y index t).position.x ∧
      (card style columns bucket y index t).position.x + style.cardWidth ≤
        style.marginX + (columns : α) * style.cardWidth := by
  have within := step_le width (Nat.mod_lt index positive)
  have start : (0 : α) ≤ ((index % columns : Nat) : α) * style.cardWidth :=
    mul_nonneg (Nat.cast_nonneg _) width
  show style.marginX ≤ style.marginX + _ ∧ style.marginX + _ + _ ≤ _
  constructor <;> linarith

private theorem rows_card (t : Hierarchy.Tree) (positive : 0 < columns)
    (height : 0 ≤ style.rowHeight) (below : index < count) :
    y ≤ (card style columns bucket y index t).position.y ∧
      (card style columns bucket y index t).position.y + style.rowHeight ≤
        y + (rowCount count columns : α) * style.rowHeight := by
  have within := step_le height (row_lt_rowCount below positive)
  have start : (0 : α) ≤ ((index / columns : Nat) : α) * style.rowHeight :=
    mul_nonneg (Nat.cast_nonneg _) height
  show y ≤ y + _ ∧ y + _ + _ ≤ _
  constructor <;> linarith

theorem disjoint_cards (t u : Hierarchy.Tree) (width : 0 ≤ style.cardWidth)
    (height : 0 ≤ style.rowHeight) {other : Nat} (less : index < other) :
    Disjoint ((card style columns bucket y index t).area style)
      ((card style columns bucket y other u).area style) := by
  have rows : index / columns ≤ other / columns := Nat.div_le_div_right less.le
  rcases Nat.lt_or_ge (index / columns) (other / columns) with below | same
  · apply Card.disjoint_of_below
    have step := step_le height below
    show y + _ + _ ≤ y + _
    linarith
  · -- In one row the columns count up.
    apply Card.disjoint_of_beside
    have split := Nat.div_add_mod index columns
    have split' := Nat.div_add_mod other columns
    have equal : index / columns = other / columns := by omega
    rw [equal] at split
    have less' : index % columns < other % columns := by omega
    have step := step_le width less'
    show style.marginX + _ + _ ≤ style.marginX + _
    linarith

/-- What is known of the cards of a bucket that starts at `y`. -/
structure InRows (style : TimelineStyle α) (columns : Nat) (bucket : Bucket) (y : α) (count : Nat)
    (c : Card α) : Prop where
  bucket : c.bucket = bucket
  sides : style.marginX ≤ c.position.x ∧
    c.position.x + style.cardWidth ≤ style.marginX + (columns : α) * style.cardWidth
  rows : y ≤ c.position.y ∧
    c.position.y + style.rowHeight ≤ y + (rowCount count columns : α) * style.rowHeight
  top : c.position.row = 0 → c.position.y = y

private theorem inRows_of_mem {members : List Hierarchy.Tree} (positive : 0 < columns)
    (width : 0 ≤ style.cardWidth) (height : 0 ≤ style.rowHeight) {c : Card α}
    (member : c ∈ members.mapIdx (card style columns bucket y)) :
    InRows style columns bucket y members.length c := by
  obtain ⟨index, below, rfl⟩ := List.mem_mapIdx.mp member
  refine ⟨rfl, sides_card _ positive width, rows_card _ positive height below, ?_⟩
  intro (first : index / columns = 0)
  show y + ((index / columns : Nat) : α) * style.rowHeight = y
  rw [first, Nat.cast_zero, zero_mul, add_zero]

private theorem pairwise_disjoint_bucket (members : List Hierarchy.Tree)
    (width : 0 ≤ style.cardWidth) (height : 0 ≤ style.rowHeight) :
    (members.mapIdx (card style columns bucket y)).Pairwise
      (fun c d => Disjoint (c.area style) (d.area style)) := by
  rw [List.pairwise_iff_getElem]
  intro index other _ _ less
  rw [List.getElem_mapIdx, List.getElem_mapIdx]
  exact disjoint_cards _ _ width height less

/-- A timeline whose cards have cells of their own in the given number of columns, and whose buckets
come before the one at a given place. -/
structure Stacked (style : TimelineStyle α) (columns limit : Nat) (line : Timeline α) : Prop where
  earlier : ∀ c ∈ line.cards, c.bucket.rank < limit
  headed : ∀ s ∈ line.separators, s.bucket.rank < limit
  sides : ∀ c ∈ line.cards, style.marginX ≤ c.position.x ∧
    c.position.x + style.cardWidth ≤ style.marginX + (columns : α) * style.cardWidth
  bottom : ∀ c ∈ line.cards, c.position.y + style.rowHeight ≤ line.height - style.groupSpacing
  apart : line.cards.Pairwise (fun c d => Disjoint (c.area style) (d.area style))
  filled : ∀ s ∈ line.separators, ∃ c ∈ line.cards, c.bucket = s.bucket ∧ c.position.row = 0
  level : ∀ s ∈ line.separators, ∀ c ∈ line.cards, c.bucket = s.bucket → c.position.row = 0 →
    s.y = c.position.y - style.separatorOffset
  above : style.separatorOffset ≤ style.groupSpacing → ∀ s ∈ line.separators, ∀ c ∈ line.cards,
    c.bucket.rank < s.bucket.rank → c.position.y + style.rowHeight ≤ s.y

namespace Stacked

variable {limit : Nat} {line : Timeline α}

omit [IsStrictOrderedRing α] in
private theorem weaken {limit' : Nat} (stacked : Stacked style columns limit line)
    (le : limit ≤ limit') :
    Stacked style columns limit' line where
  earlier c member := (stacked.earlier c member).trans_le le
  headed s member := (stacked.headed s member).trans_le le
  sides := stacked.sides
  bottom := stacked.bottom
  apart := stacked.apart
  filled := stacked.filled
  level := stacked.level
  above := stacked.above

private theorem bottom_le_height (stacked : Stacked style columns limit line)
    (spacing : 0 ≤ style.groupSpacing) {c : Card α} (member : c ∈ line.cards) :
    c.position.y + style.rowHeight ≤ line.height := by
  have bottom := stacked.bottom c member
  linarith

section Below

variable (stacked : Stacked style columns limit line) (later : limit ≤ bucket.rank)
  {new : List (Card α)} {count : Nat}
  (fresh : ∀ c ∈ new, InRows style columns bucket line.height count c)

include stacked later fresh

omit [IsStrictOrderedRing α] in
/-- A separator at the old height is right for the new cards, and the others stay right. -/
private theorem level_append :
    ∀ s ∈ line.separators ++ [{ bucket := bucket, y := line.height - style.separatorOffset }],
      ∀ c ∈ line.cards ++ new, c.bucket = s.bucket → c.position.row = 0 →
        s.y = c.position.y - style.separatorOffset := by
  intro s head c member same first
  rcases List.mem_append.mp head with old | last
  · have rank := stacked.headed s old
    rcases List.mem_append.mp member with old' | last'
    · exact stacked.level s old c old' same first
    · rw [← same, (fresh c last').bucket] at rank
      omega
  · rw [List.mem_singleton.mp last] at same ⊢
    rcases List.mem_append.mp member with old' | last'
    · have rank := stacked.earlier c old'
      rw [same] at rank
      exact absurd rank (Nat.not_lt.mpr later)
    · rw [(fresh c last').top first]

private theorem above_append (room : style.separatorOffset ≤ style.groupSpacing) :
    ∀ s ∈ line.separators ++ [{ bucket := bucket, y := line.height - style.separatorOffset }],
      ∀ c ∈ line.cards ++ new, c.bucket.rank < s.bucket.rank →
        c.position.y + style.rowHeight ≤ s.y := by
  intro s head c member less
  rcases List.mem_append.mp head with old | last
  · have rank := stacked.headed s old
    rcases List.mem_append.mp member with old' | last'
    · exact stacked.above room s old c old' less
    · rw [(fresh c last').bucket] at less
      omega
  · rw [List.mem_singleton.mp last] at less ⊢
    rcases List.mem_append.mp member with old' | last'
    · have bottom := stacked.bottom c old'
      show _ ≤ line.height - style.separatorOffset
      linarith
    · rw [(fresh c last').bucket] at less
      exact absurd less (Nat.lt_irrefl _)

end Below

/-- A later bucket goes below everything else. -/
theorem addBucket (stacked : Stacked style columns limit line) (positive : 0 < columns)
    (width : 0 ≤ style.cardWidth) (height : 0 ≤ style.rowHeight)
    (spacing : 0 ≤ style.groupSpacing) (later : limit ≤ bucket.rank)
    (members : List Hierarchy.Tree) :
    Stacked style columns (bucket.rank + 1)
      (addBucket style columns line (bucket, members)) := by
  by_cases empty : members.isEmpty
  · rw [Layout.addBucket, if_pos empty]
    exact stacked.weaken (Nat.le_succ_of_le later)
  · have fresh : ∀ c ∈ members.mapIdx (card style columns bucket line.height),
        InRows style columns bucket line.height members.length c :=
      fun c member => inRows_of_mem positive width height member
    have rows : (0 : α) ≤ (rowCount members.length columns : α) * style.rowHeight :=
      mul_nonneg (Nat.cast_nonneg _) height
    rw [Layout.addBucket, if_neg empty]
    constructor
    case earlier =>
      intro c member
      rcases List.mem_append.mp member with old | new
      · exact (stacked.earlier c old).trans_le (Nat.le_succ_of_le later)
      · rw [(fresh c new).bucket]
        exact Nat.lt_succ_self _
    case headed =>
      intro s member
      rcases List.mem_append.mp member with old | new
      · exact (stacked.headed s old).trans_le (Nat.le_succ_of_le later)
      · rw [List.mem_singleton.mp new]
        exact Nat.lt_succ_self _
    case sides =>
      intro c member
      rcases List.mem_append.mp member with old | new
      · exact stacked.sides c old
      · exact (fresh c new).sides
    case bottom =>
      intro c member
      show _ ≤ line.height + (_ + style.groupSpacing) - style.groupSpacing
      rcases List.mem_append.mp member with old | new
      · have := stacked.bottom_le_height spacing old
        linarith
      · have := (fresh c new).rows.2
        linarith
    case apart =>
      refine List.pairwise_append.mpr ⟨stacked.apart, pairwise_disjoint_bucket _ width height, ?_⟩
      intro c old d new
      apply Card.disjoint_of_below
      exact (stacked.bottom_le_height spacing old).trans (fresh d new).rows.1
    case filled =>
      intro s member
      rcases List.mem_append.mp member with old | new
      · obtain ⟨c, inside, facts⟩ := stacked.filled s old
        exact ⟨c, List.mem_append_left _ inside, facts⟩
      · rw [List.mem_singleton.mp new]
        have inhabited : 0 < members.length :=
          List.length_pos_of_ne_nil fun vacant => empty (List.isEmpty_iff.mpr vacant)
        refine ⟨card style columns bucket line.height 0 members[0], ?_, rfl, Nat.zero_div columns⟩
        exact List.mem_append_right _ (List.mem_mapIdx.mpr ⟨0, inhabited, rfl⟩)
    case level => exact stacked.level_append later fresh
    case above => exact stacked.above_append later fresh

/-- Buckets in their order, one below the other. -/
theorem foldl_addBucket (positive : 0 < columns) (width : 0 ≤ style.cardWidth)
    (height : 0 ≤ style.rowHeight) (spacing : 0 ≤ style.groupSpacing)
    (groups : List (Bucket × List Hierarchy.Tree))
    (ordered : groups.Pairwise (fun g g' => g.1.rank < g'.1.rank)) {limit : Nat}
    {line : Timeline α} (stacked : Stacked style columns limit line)
    (later : ∀ g ∈ groups, limit ≤ g.1.rank) :
    ∃ limit',
      Stacked style columns limit' (groups.foldl (Layout.addBucket style columns) line) := by
  induction groups generalizing limit line with
  | nil => exact ⟨limit, stacked⟩
  | cons group rest ih =>
    obtain ⟨first, ordered⟩ := List.pairwise_cons.mp ordered
    have step := stacked.addBucket positive width height spacing
      (later group List.mem_cons_self) group.2
    exact ih ordered step first

private theorem timelineOf (positive : 0 < columns) (width : 0 ≤ style.cardWidth)
    (height : 0 ≤ style.rowHeight) (spacing : 0 ≤ style.groupSpacing) (now : Int)
    (trees : List Hierarchy.Tree) :
    ∃ limit, Stacked style columns limit (Layout.timelineOf style columns now trees) := by
  have initial : Stacked style columns 0
      { cards := [], separators := [], buckets := [], height := style.baseY } := by
    constructor <;> simp
  refine foldl_addBucket positive width height spacing _ ?_ initial fun _ _ => Nat.zero_le _
  rw [grouped, List.pairwise_map]
  exact Bucket.pairwise_rank_all

end Stacked

end Rows

/-- With exact numbers every timeline exists. -/
theorem timeline_eq_ok (h : Hierarchy) (c : TimelineConfig ℚ) (now : Int)
    (filter : Option (List String)) :
    timeline h c now filter =
      .ok (timelineOf c.style (max 1 ⌊c.containerWidth / c.style.cardWidth⌋).toNat now
        (candidates h c.topLevelOnly filter)) := rfl

private theorem columns_mul_cardWidth_le (c : TimelineConfig ℚ) (width : 0 < c.style.cardWidth) :
    (((max 1 ⌊c.containerWidth / c.style.cardWidth⌋).toNat : Nat) : ℚ) * c.style.cardWidth ≤
      max c.containerWidth c.style.cardWidth := by
  rcases le_or_gt ⌊c.containerWidth / c.style.cardWidth⌋ 1 with one | more
  · rw [max_eq_left one]
    simp
  · have fit : (⌊c.containerWidth / c.style.cardWidth⌋ : ℚ) * c.style.cardWidth ≤
        c.containerWidth := by
      rw [← le_div_iff₀ width]
      exact Int.floor_le _
    have whole : (((⌊c.containerWidth / c.style.cardWidth⌋).toNat : Nat) : ℚ) =
        (⌊c.containerWidth / c.style.cardWidth⌋ : ℚ) := by
      have back := Int.toNat_of_nonneg (a := ⌊c.containerWidth / c.style.cardWidth⌋) (by omega)
      exact_mod_cast congrArg (Int.cast (R := ℚ)) back
    rw [max_eq_right more.le, whole]
    exact fit.trans (le_max_left _ _)

/-- In exact numbers no two cards of a timeline overlap. All of them lie between the margin and the
end of the container, or of the first column, and above the height less the last spacing. A
separator is at its offset from the first row of its bucket, and if the offset is no more than the
spacing, no card of an earlier bucket reaches below it. -/
theorem timeline_grid (h : Hierarchy) (c : TimelineConfig ℚ) (now : Int)
    (filter : Option (List String)) (width : 0 < c.style.cardWidth) (rows : 0 < c.style.rowHeight)
    (spacing : 0 ≤ c.style.groupSpacing) :
    ∃ line, timeline h c now filter = .ok line ∧
      line.cards.Pairwise (fun a b => Disjoint (a.area c.style) (b.area c.style)) ∧
      (∀ card ∈ line.cards, c.style.marginX ≤ card.position.x ∧
        card.position.x + c.style.cardWidth ≤
          c.style.marginX + max c.containerWidth c.style.cardWidth ∧
        card.position.y + c.style.rowHeight ≤ line.height - c.style.groupSpacing) ∧
      ∀ s ∈ line.separators,
        (∃ card ∈ line.cards, card.bucket = s.bucket ∧ card.position.row = 0) ∧
        (∀ card ∈ line.cards, card.bucket = s.bucket → card.position.row = 0 →
          s.y = card.position.y - c.style.separatorOffset) ∧
        (c.style.separatorOffset ≤ c.style.groupSpacing →
          ∀ card ∈ line.cards, card.bucket.rank < s.bucket.rank →
            card.position.y + c.style.rowHeight ≤ s.y) := by
  have positive : 0 < (max 1 ⌊c.containerWidth / c.style.cardWidth⌋).toNat := by omega
  obtain ⟨limit, stacked⟩ := Stacked.timelineOf positive width.le rows.le spacing now
    (candidates h c.topLevelOnly filter)
  refine ⟨_, timeline_eq_ok h c now filter, stacked.apart, ?_, ?_⟩
  · intro card member
    obtain ⟨left, right⟩ := stacked.sides card member
    have fit := columns_mul_cardWidth_le c width
    exact ⟨left, by linarith, stacked.bottom card member⟩
  · intro s head
    exact ⟨stacked.filled s head, stacked.level s head, fun room => stacked.above room s head⟩

def narrowConfig : TimelineConfig ℚ where
  containerWidth := 100
  style := TimelineStyle.standard
  topLevelOnly := false

theorem timeline_grid_of_narrow :
    ∃ s line, Snapshot.ofPayload (sharedToolPayload "t") = .ok s ∧
      timeline (build s) narrowConfig 0 none = .ok line ∧ line.cards.length = 2 ∧
      line.cards.Pairwise (fun a b =>
        Disjoint (a.area narrowConfig.style) (b.area narrowConfig.style)) := by
  obtain ⟨s, accepted, two⟩ : ∃ s, Snapshot.ofPayload (sharedToolPayload "t") = .ok s ∧
      (build s).walk.length = 2 := ⟨_, rfl, by decide +kernel⟩
  obtain ⟨line, made, apart, -⟩ := timeline_grid (build s) narrowConfig 0 none
    (by decide +kernel) (by decide +kernel) (by decide +kernel)
  have cards := (showsTree_of_timeline rfl made).trees.length_eq
  rw [List.length_map, two] at cards
  exact ⟨s, line, accepted, made, cards, apart⟩

end CapabilityAtlas.Layout
