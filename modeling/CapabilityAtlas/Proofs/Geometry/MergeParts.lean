import CapabilityAtlas.Proofs.Geometry.DisjointSets
import CapabilityAtlas.Proofs.Geometry.Extreme
import CapabilityAtlas.Proofs.Geometry.Merge

set_option autoImplicit false
set_option relaxedAutoImplicit false

/-!
What merging makes of groups. The groups at the positions of one part become one, and the parts are
the classes of the positions that overlaps connect.
-/

namespace CapabilityAtlas.Geometry

open Plane (filled)

namespace HullGroup

variable {α : Type} [Field α] [LinearOrder α]

/-- Whether a chain of overlaps leads from one position to another. -/
def Linked (groups : List (HullGroup α)) : Nat → Nat → Prop :=
  Relation.EqvGen (fun i j => i < j ∧ overlap groups i j)

/-- The classes of the linked positions: ascending, and listed by the least of each. -/
structure AreParts (groups : List (HullGroup α)) (parts : List (List Nat)) : Prop where
  nonempty : ∀ part ∈ parts, part ≠ []
  once : parts.flatten.Perm (List.range groups.length)
  ascending : ∀ part ∈ parts, part.Pairwise (· < ·)
  linked : ∀ part ∈ parts, ∀ i ∈ part, ∀ j < groups.length, j ∈ part ↔ Linked groups i j
  ordered : parts.Pairwise (fun part other => ∃ i ∈ part.head?, ∃ j ∈ other.head?, i < j)

/-- A group that stands for those of a part: for a single one itself, for several a group in the
color of the first, with the hull of all their points and all their members. -/
structure StandsFor (merged : HullGroup α) (part : List (HullGroup α)) : Prop where
  single : ∀ group, part = [group] → merged = group
  points : 1 < part.length → merged.points = convexHull (part.flatMap HullGroup.points)
  color : part.head?.map HullGroup.color = some merged.color
  animated : merged.animated = true ↔ ∃ group ∈ part, group.animated = true
  members : merged.members = part.flatMap HullGroup.members
  covers : 1 < part.length → ∀ group ∈ part, ∀ p ∈ group.points, p ∈ filled merged.points

private theorem linked_iff {groups : List (HullGroup α)} {i j : Nat} :
    Linked groups i j ↔
      Relation.EqvGen (fun i j => i < j ∧ j < groups.length ∧ overlap groups i j) i j := by
  have inside : ∀ {i j}, overlap groups i j → j < groups.length := by
    intro i j holds
    by_contra beyond
    rw [overlap, List.getElem?_eq_none (Nat.le_of_not_lt beyond)] at holds
    cases found : groups[i]? with
    | none => simp [found] at holds
    | some group => simp [found] at holds
  constructor
  · apply Relation.EqvGen.mono
    rintro a b ⟨less, holds⟩
    exact ⟨less, inside holds, holds⟩
  · apply Relation.EqvGen.mono
    rintro a b ⟨less, -, holds⟩
    exact ⟨less, holds⟩

private theorem areParts_setComponents (groups : List (HullGroup α)) :
    AreParts groups (setComponents groups.length (overlap groups)) := by
  rw [setComponents_eq]
  refine ⟨fun part => ne_nil_of_mem_components, perm_flatten_components _ _,
    fun part => pairwise_lt_of_mem_components, ?_, pairwise_head?_components _ _⟩
  intro part member i inside j below
  rw [linked_iff]
  exact mem_iff_of_mem_components member inside below

private theorem map_getElem?_of_mem_components {groups : List (HullGroup α)} {part : List Nat}
    (member : part ∈ components groups.length (overlap groups)) :
    part.map (groups[·]?) = (part.filterMap (groups[·]?)).map some := by
  have below : ∀ i ∈ part, i < groups.length := fun i => lt_of_mem_components member
  clear member
  induction part with
  | nil => rfl
  | cons i rest ih =>
    rw [List.forall_mem_cons] at below
    simp [List.getElem?_eq_getElem below.1, ih below.2]

variable [IsStrictOrderedRing α]

theorem standsFor_combine {part : List (HullGroup α)} {merged : HullGroup α}
    (combined : combine part = some merged) : StandsFor merged part := by
  match part with
  | [] => simp [combine] at combined
  | [group] =>
    obtain rfl := Option.some.inj combined
    constructor <;> simp
  | first :: second :: rest =>
    have members := members_of_combine combined
    obtain rfl := Option.some.inj combined
    refine ⟨fun group same => by simp at same, fun _ => rfl, rfl, List.any_eq_true, members, ?_⟩
    intro _ group member p vertex
    rw [filled_convexHull]
    exact mem_filled (List.mem_flatMap.mpr ⟨group, member, vertex⟩)

private theorem forall₂_filterMap {β γ : Type} {r : β → γ → Prop} {f : β → Option γ}
    {members : List β} (each : ∀ b ∈ members, ∃ c, f b = some c ∧ r b c) :
    List.Forall₂ r members (members.filterMap f) := by
  induction members with
  | nil => exact List.Forall₂.nil
  | cons b rest ih =>
    rw [List.forall_mem_cons] at each
    obtain ⟨⟨c, found, holds⟩, others⟩ := each
    rw [List.filterMap_cons_some found]
    exact List.Forall₂.cons holds (ih others)

/-- Merging finds the parts as sets of positions, and puts in the place of every part one group that
stands for those at its positions. -/
theorem merge_parts (groups : List (HullGroup α)) :
    let parts := setComponents groups.length (overlap groups)
    AreParts groups parts ∧
    List.Forall₂ (fun part merged => ∃ chosen : List (HullGroup α),
      part.map (groups[·]?) = chosen.map some ∧ StandsFor merged chosen) parts (merge groups) := by
  refine ⟨areParts_setComponents groups, ?_⟩
  rw [setComponents_eq, merge]
  apply forall₂_filterMap
  intro part member
  obtain ⟨merged, combined⟩ := exists_combine_of_mem_parts (List.mem_map_of_mem member)
  exact ⟨merged, combined, part.filterMap (groups[·]?), map_getElem?_of_mem_components member,
    standsFor_combine combined⟩

theorem merge_parts_of_corner :
    setComponents 3 (overlap cornerGroups) = [[0, 1], [2]] ∧
      Linked cornerGroups 0 1 ∧ ¬ Linked cornerGroups 0 2 ∧
      ∃ joint alone, merge cornerGroups = [joint, alone] ∧ cornerGroups[2]? = some alone ∧
        joint.members = ["a", "b"] ∧ ⟨0, 8⟩ ∈ filled joint.points := by
  have listed : setComponents cornerGroups.length (overlap cornerGroups) = [[0, 1], [2]] := by
    rw [setComponents_eq]
    decide +kernel
  obtain ⟨parts, stand⟩ := merge_parts cornerGroups
  rw [listed] at parts stand
  have linked := parts.linked [0, 1] List.mem_cons_self 0 List.mem_cons_self
  refine ⟨listed, (linked 1 (by decide)).mp (by decide), fun reach => ?_, ?_⟩
  · exact absurd ((linked 2 (by decide)).mpr reach) (by decide)
  · generalize merge cornerGroups = merged at stand ⊢
    obtain _ | ⟨⟨joined, both, joint⟩, _ | ⟨⟨own, one, alone⟩, _ | _⟩⟩ := stand
    have some_inj : Function.Injective (List.map (some : HullGroup ℚ → _)) :=
      List.map_injective_iff.mpr (Option.some_injective _)
    obtain rfl : [cornerGroups[0], cornerGroups[1]] = joined := some_inj both
    obtain rfl : [cornerGroups[2]] = own := some_inj one
    refine ⟨_, _, rfl, congrArg some (alone.single _ rfl).symm, joint.members, ?_⟩
    exact joint.covers (by decide) cornerGroups[1] (by simp) ⟨0, 8⟩ (by decide +kernel)

end HullGroup

end CapabilityAtlas.Geometry
