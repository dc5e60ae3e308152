import CapabilityAtlas.Proofs.Hierarchy.Forest
import CapabilityAtlas.Proofs.Hierarchy.Level
import Mathlib.Algebra.Order.Field.Rat
import Mathlib.Data.List.MinMax
import Mathlib.Tactic.Positivity

set_option autoImplicit false
set_option relaxedAutoImplicit false

/-!
The levels of the final trees. Although levels follow the links before circles are cut, each agrees
with the levels of the children that are left below it; only the child that was cut loose still
counts, and it counts one.
-/

namespace CapabilityAtlas.Hierarchy

variable {payload : Payload} {s : Snapshot}

/-- Whether a capability whose first container is the given one was cut loose from it. -/
def HasCutLoose (s : Snapshot) (id : String) : Prop :=
  ∃ kid ∈ activeIds s, containerOf s kid = some id ∧ (build s).parents.get? kid = none

instance (s : Snapshot) (id : String) : Decidable (HasCutLoose s id) :=
  inferInstanceAs (Decidable (∃ kid ∈ activeIds s, _))

private theorem nested_build (nodup : (activeIds s).Nodup) :
    Nested (nestingOf (firstParents s.edges (activeIds s)) (activeIds s)) (containerOf s)
      (activeIds s) (build s).parents.get? := by
  refine ⟨isForestOf_parents nodup, fun c p linked => (mem_of_containerOf linked).1, ?_⟩
  intro id kid
  rw [childrenOf_nestingOf, List.mem_filter, get?_firstParents_activeIds, decide_eq_true_iff]
  exact ⟨fun h => h.2, fun linked => ⟨(mem_of_containerOf linked).1, linked⟩⟩

theorem levelsUpTo_build (nodup : (activeIds s).Nodup) :
    LevelsUpTo (nestingOf (firstParents s.edges (activeIds s)) (activeIds s))
      (build s).parents.get? (activeIds s) (activeIds s) (build s).levels :=
  levelsUpTo_levelTable (nested_build nodup) (nodup_inner (nodup_keys_nestingOf _ _))

private theorem get?_levels_build (nodup : (activeIds s).Nodup) {t : Tree}
    (member : t ∈ (build s).walk) :
    (build s).levels.get? t.id = some t.level := by
  obtain ⟨c, hc, same⟩ := entry_of_mem_walk_build nodup member
  obtain ⟨level, found⟩ := (levelsUpTo_build nodup).found c.id (List.mem_map_of_mem hc)
  have own : t.level = level := by
    rw [Tree.level, same]
    change ((build s).levels.get? c.id).getD 1 = level
    rw [found]
    rfl
  rw [own, Tree.id, same]
  exact found

/-- The level of a node is one more than the highest level below it, where a child that was cut
loose counts one. -/
private theorem level_of_mem_walk_build (nodup : (activeIds s).Nodup) {t : Tree}
    (member : t ∈ (build s).walk) :
    t.level = (t.children.map Tree.level ++
      (if HasCutLoose s t.id then [1] else [])).foldr max 0 + 1 := by
  have upTo := levelsUpTo_build nodup
  have nested := nested_build nodup
  have hung : ∀ u ∈ t.children, u ∈ (build s).walk := fun u hu =>
    Tree.child_mem_walkAll _ member hu
  have kids : ∀ kid, (∃ u ∈ t.children, u.id = kid) ↔ (build s).parents.get? kid = some t.id := by
    intro kid
    rw [← List.mem_map, map_id_children_build nodup member, List.mem_filter, decide_eq_true_iff]
    exact ⟨fun h => h.2, fun linked =>
      ⟨(mem_of_containerOf (nested.forest.up_eq_some linked)).1, linked⟩⟩
  rw [upTo.settled.level _ _ (get?_levels_build nodup member), levelAbove]
  congr 1
  -- Each child of an uncut link is a child in the tree or the one that was cut loose.
  refine Nat.le_antisymm (List.max_le_of_forall_le _ _ ?_) (List.max_le_of_forall_le _ _ ?_)
  · intro level counted
    obtain ⟨kid, hk, rfl⟩ := List.mem_map.mp counted
    have linked := (nested.children _ kid).mp hk
    refine List.le_max_of_le ?_ (Nat.le_refl _)
    cases hangs : (build s).parents.get? kid with
    | some p =>
      obtain rfl := Option.some.inj ((nested.forest.up_eq_some hangs).symm.trans linked)
      obtain ⟨u, hu, rfl⟩ := (kids kid).mpr hangs
      have own : countedLevel (build s).parents.get? (build s).levels t.id u.id =
          u.level := by
        rw [countedLevel, if_pos hangs, get?_levels_build nodup (hung u hu)]
        rfl
      rw [own]
      exact List.mem_append_left _ (List.mem_map_of_mem hu)
    | none =>
      have loose : HasCutLoose s t.id :=
        ⟨kid, (mem_of_containerOf linked).1, linked, hangs⟩
      have one : countedLevel (build s).parents.get? (build s).levels t.id kid = 1 := by
        rw [countedLevel, if_neg (by simp [hangs])]
      rw [one, if_pos loose]
      exact List.mem_append_right _ List.mem_cons_self
  · intro level listed
    rcases List.mem_append.mp listed with below | loose
    · obtain ⟨u, hu, rfl⟩ := List.mem_map.mp below
      have hangs := (kids u.id).mp ⟨u, hu, rfl⟩
      refine List.le_max_of_le (List.mem_map_of_mem
        ((nested.children _ u.id).mpr (nested.forest.up_eq_some hangs))) ?_
      rw [countedLevel, if_pos hangs, get?_levels_build nodup (hung u hu)]
      exact Nat.le_refl _
    · split at loose
      · rename_i cut
        obtain ⟨kid, -, linked, free⟩ := cut
        obtain rfl := List.mem_singleton.mp loose
        refine List.le_max_of_le (List.mem_map_of_mem ((nested.children _ kid).mpr linked)) ?_
        rw [countedLevel, if_neg (by simp [free])]
      · simp at loose

private theorem level_pos_of_mem_walk_build (nodup : (activeIds s).Nodup) {t : Tree}
    (member : t ∈ (build s).walk) : 1 ≤ t.level := by
  rw [level_of_mem_walk_build nodup member]
  exact Nat.le_add_left _ _

theorem level_child_lt (nodup : (activeIds s).Nodup) {t u : Tree} (member : t ∈ (build s).walk)
    (child : u ∈ t.children) : u.level + 1 ≤ t.level := by
  rw [level_of_mem_walk_build nodup member]
  refine Nat.succ_le_succ (List.le_max_of_le (List.mem_append_left _ ?_) (Nat.le_refl _))
  exact List.mem_map_of_mem child

private theorem mem_levels_build_iff (nodup : (activeIds s).Nodup) {level : Nat} :
    level ∈ (build s).levels.map Prod.snd ↔ ∃ t ∈ (build s).walk, t.level = level := by
  have upTo := levelsUpTo_build nodup
  constructor
  · intro listed
    obtain ⟨⟨id, _⟩, held, rfl⟩ := List.mem_map.mp listed
    have found := Keyed.get?_of_mem upTo.settled.nodup held
    have member := (perm_walk_build nodup).mem_iff.mpr (upTo.listed id _ found)
    obtain ⟨t, ht, rfl⟩ := List.mem_map.mp member
    exact ⟨t, ht, Option.some.inj ((get?_levels_build nodup ht).symm.trans found)⟩
  · rintro ⟨t, ht, rfl⟩
    exact List.mem_map.mpr ⟨_, Keyed.mem_of_get? (get?_levels_build nodup ht), rfl⟩

private theorem foldl_max_spec (levels : List Nat) (least : Nat) :
    least ≤ levels.foldl max least ∧ (∀ level ∈ levels, level ≤ levels.foldl max least) ∧
      (levels.foldl max least = least ∨ levels.foldl max least ∈ levels) := by
  induction levels generalizing least with
  | nil => exact ⟨Nat.le_refl _, by simp, Or.inl rfl⟩
  | cons level rest ih =>
    obtain ⟨above, bound, reached⟩ := ih (max least level)
    rw [List.foldl_cons]
    refine ⟨by omega, ?_, ?_⟩
    · intro x hx
      rcases List.mem_cons.mp hx with rfl | hx
      · omega
      · exact bound x hx
    · rcases reached with same | later
      · rw [same]
        rcases Nat.le_total least level with h | h
        · rw [Nat.max_eq_right h]
          exact Or.inr List.mem_cons_self
        · exact Or.inl (Nat.max_eq_left h)
      · exact Or.inr (List.mem_cons_of_mem _ later)

private theorem level_le_maxLevel (nodup : (activeIds s).Nodup) {t : Tree}
    (member : t ∈ (build s).walk) : t.level ≤ (build s).maxLevel :=
  (foldl_max_spec _ 1).2.1 _ ((mem_levels_build_iff nodup).mpr ⟨t, member, rfl⟩)

theorem maxLevel_reached (nodup : (activeIds s).Nodup) :
    (build s).walk = [] ∧ (build s).maxLevel = 1 ∨
      ∃ t ∈ (build s).walk, t.level = (build s).maxLevel := by
  rcases (foldl_max_spec ((build s).levels.map Prod.snd) 1).2.2 with one | reached
  · change (build s).maxLevel = 1 at one
    cases nodes : (build s).walk with
    | nil => exact Or.inl ⟨rfl, one⟩
    | cons t rest =>
      have member : t ∈ (build s).walk := by simp [nodes]
      have low := level_pos_of_mem_walk_build nodup member
      have high := level_le_maxLevel nodup member
      exact Or.inr ⟨t, List.mem_cons_self, by omega⟩
  · exact Or.inr ((mem_levels_build_iff nodup).mp reached)

theorem levelNorm_mem (nodup : (activeIds s).Nodup) {t : Tree} (member : t ∈ (build s).walk) :
    0 < ((build s).levelNorm t.level : ℚ) ∧ ((build s).levelNorm t.level : ℚ) < 1 := by
  have low := level_pos_of_mem_walk_build nodup member
  have high := level_le_maxLevel nodup member
  have positive : (0 : ℚ) < ((build s).maxLevel + 1 : ℕ) := by exact_mod_cast Nat.succ_pos _
  unfold levelNorm Scalar.ratio
  constructor
  · exact div_pos (by exact_mod_cast low) positive
  · rw [div_lt_one positive]
    exact_mod_cast Nat.lt_succ_of_le high

/-- The levels of an accepted snapshot agree with its forest, and the greatest of them bounds all
relative levels below one. -/
theorem levels_agree_with_forest (accepted : Snapshot.ofPayload payload = .ok s) :
    (∀ id ∈ activeIds s, ∃ t ∈ (build s).walk, t.id = id) ∧
    (∀ t ∈ (build s).walk,
      (build s).levels.get? t.id = some t.level ∧
      t.level = (t.children.map Tree.level ++
        (if HasCutLoose s t.id then [1] else [])).foldr max 0 + 1 ∧
      (∀ u ∈ t.children, u.level + 1 ≤ t.level) ∧
      t.level ≤ (build s).stats.maxLevel ∧
      0 < ((build s).levelNorm t.level : ℚ) ∧ ((build s).levelNorm t.level : ℚ) < 1) ∧
    ((build s).walk = [] ∧ (build s).stats.maxLevel = 1 ∨
      ∃ t ∈ (build s).walk, t.level = (build s).stats.maxLevel) := by
  have nodup := nodup_activeIds accepted
  refine ⟨?_, ?_, maxLevel_reached nodup⟩
  · intro id member
    exact List.mem_map.mp ((perm_walk_build nodup).mem_iff.mpr member)
  · intro t member
    exact ⟨get?_levels_build nodup member, level_of_mem_walk_build nodup member,
      fun u child => level_child_lt nodup member child, level_le_maxLevel nodup member,
      levelNorm_mem nodup member⟩

theorem levels_agree_with_forest_of_circle :
    Snapshot.ofPayload circlePayload = .ok circleSnapshot ∧ HasCutLoose circleSnapshot "b" ∧
    ∃ t ∈ (build circleSnapshot).walk, t.id = "b" ∧
      t.level = (t.children.map Tree.level ++ [1]).foldr max 0 + 1 := by
  have loose : HasCutLoose circleSnapshot "b" :=
    ⟨"a", by decide, by decide, by decide +kernel⟩
  obtain ⟨reached, agree, -⟩ := levels_agree_with_forest accepted_circlePayload
  obtain ⟨t, member, same⟩ := reached "b" (by decide)
  have level := (agree t member).2.1
  rw [same, if_pos loose] at level
  exact ⟨accepted_circlePayload, loose, t, member, same, level⟩

end CapabilityAtlas.Hierarchy
