import CapabilityAtlas.Hierarchy.Build
import CapabilityAtlas.Proofs.Keyed

set_option autoImplicit false
set_option relaxedAutoImplicit false

/-!
The children of every parent, as links give them: they stand in the order of the ids.
-/

namespace CapabilityAtlas.Hierarchy

private theorem childrenOf_put (nesting : Nesting) (id other : String) (children : List String) :
    childrenOf (nesting.put id children) other =
      if other = id then children else childrenOf nesting other := by
  unfold childrenOf
  rw [Keyed.get?_put]
  split <;> rfl

private theorem childrenOf_fold {nest : Nesting → String → Nesting} {links : Keyed String}
    (linked : ∀ nesting kid parent, links.get? kid = some parent →
      nest nesting kid = nesting.put parent (childrenOf nesting parent ++ [kid]))
    (free : ∀ nesting kid, links.get? kid = none → nest nesting kid = nesting)
    (ids : List String) (nesting : Nesting) (nodup : nesting.keys.Nodup) :
    (ids.foldl nest nesting).keys.Nodup ∧ ∀ id, childrenOf (ids.foldl nest nesting) id =
      childrenOf nesting id ++ ids.filter (fun kid => links.get? kid = some id) := by
  induction ids generalizing nesting with
  | nil => exact ⟨nodup, by simp⟩
  | cons kid rest ih =>
    rw [List.foldl_cons]
    cases found : links.get? kid with
    | none =>
      rw [free nesting kid found]
      refine ⟨(ih nesting nodup).1, fun id => ?_⟩
      rw [(ih nesting nodup).2, List.filter_cons_of_neg (by simp [found])]
    | some parent =>
      rw [linked nesting kid parent found]
      have later := ih (nesting.put parent (childrenOf nesting parent ++ [kid]))
        (Keyed.nodup_keys_put nodup parent _)
      refine ⟨later.1, fun id => ?_⟩
      rw [later.2, childrenOf_put]
      by_cases same : id = parent
      · subst same
        rw [if_pos rfl, List.filter_cons_of_pos (by simp [found]), List.append_assoc]
        rfl
      · have other : ¬ parent = id := fun he => same he.symm
        rw [if_neg same, List.filter_cons_of_neg (by simp [found, other])]

private theorem nestingOf_spec (links : Keyed String) (ids : List String) :
    (nestingOf links ids).keys.Nodup ∧ ∀ id, childrenOf (nestingOf links ids) id =
      childrenOf [] id ++ ids.filter (fun kid => links.get? kid = some id) := by
  refine childrenOf_fold ?_ ?_ ids [] List.nodup_nil
  · intro nesting kid parent found
    simp only [found]
  · intro nesting kid found
    simp only [found]

theorem childrenOf_nestingOf (links : Keyed String) (ids : List String) (id : String) :
    childrenOf (nestingOf links ids) id = ids.filter (fun kid => links.get? kid = some id) :=
  (nestingOf_spec links ids).2 id

theorem nodup_keys_nestingOf (links : Keyed String) (ids : List String) :
    (nestingOf links ids).keys.Nodup :=
  (nestingOf_spec links ids).1

theorem nodup_inner {nesting : Nesting} (nodup : nesting.keys.Nodup) : (inner nesting).Nodup :=
  nodup.filter _

theorem mem_inner_iff {nesting : Nesting} {id : String} :
    id ∈ inner nesting ↔ childrenOf nesting id ≠ [] := by
  rw [inner, List.mem_filter, Keyed.mem_keys_iff]
  constructor
  · rintro ⟨-, fertile⟩ unlisted
    simp [unlisted] at fertile
  · intro fertile
    refine ⟨?_, by simpa using fertile⟩
    cases known : nesting.get? id with
    | none => simp [childrenOf, known] at fertile
    | some children => exact ⟨children, rfl⟩

end CapabilityAtlas.Hierarchy
