import CapabilityAtlas.Proofs.Hierarchy.Distribution
import CapabilityAtlas.Proofs.Hierarchy.TreeLevel
import CapabilityAtlas.Proofs.Record.Rearrangement

set_option autoImplicit false
set_option relaxedAutoImplicit false

/-!
The hierarchies of two snapshots with the same nodes in another order. Where containers do not run
in circles, nothing but the order of lists can differ: links and levels are looked up alike, and the
entries and placements are the same up to their order.
-/

namespace CapabilityAtlas.Hierarchy

open CapabilityAtlas.Snapshot (Rearranged)

variable {s s' : Snapshot}

private theorem perm_activeIds (moved : Rearranged s s') : (activeIds s).Perm (activeIds s') :=
  (moved.capabilities.filter isActive).map Capability.id

theorem nodup_activeIds_of_rearranged (moved : Rearranged s s') : (activeIds s).Nodup :=
  (List.nodup_append.mp moved.distinct).2.1.sublist (List.filter_sublist.map Capability.id)

private theorem contains_activeIds (moved : Rearranged s s') :
    (activeIds s).contains = (activeIds s').contains := by
  funext id
  rw [Bool.eq_iff_iff, List.contains_iff_mem, List.contains_iff_mem]
  exact (perm_activeIds moved).mem_iff

private theorem containerOf_eq (moved : Rearranged s s') : containerOf s = containerOf s' := by
  funext c
  simp only [containerOf, moved.edges, (perm_activeIds moved).mem_iff]

private theorem perm_childrenOf (moved : Rearranged s s') (id : String) :
    (childrenOf (nestingOf (firstParents s.edges (activeIds s)) (activeIds s)) id).Perm
      (childrenOf (nestingOf (firstParents s'.edges (activeIds s')) (activeIds s')) id) := by
  simp only [childrenOf_nestingOf, get?_firstParents_activeIds, containerOf_eq moved]
  exact (perm_activeIds moved).filter _

section Lookup

variable (moved : Rearranged s s') (acyclic : ∀ c, ¬ OnCircle (containerOf s) c)

include moved acyclic

private theorem get?_parents_of_acyclic (c : String) : (build s).parents.get? c = containerOf s c :=
  (isForestOf_parents (nodup_activeIds_of_rearranged moved)).other c fun first => acyclic c first.1

theorem get?_parents_eq : (build s).parents.get? = (build s').parents.get? := by
  have acyclic' : ∀ c, ¬ OnCircle (containerOf s') c := containerOf_eq moved ▸ acyclic
  funext c
  rw [get?_parents_of_acyclic moved acyclic, get?_parents_of_acyclic moved.symm acyclic',
    containerOf_eq moved]

private theorem get?_levels_of_rearranged {id : String} {level : Nat}
    (found : (build s).levels.get? id = some level) :
    (build s').levels.get? id = some level := by
  induction level using Nat.strongRecOn generalizing id with
  | ind level ih =>
    have upTo := levelsUpTo_build (nodup_activeIds_of_rearranged moved)
    have upTo' := levelsUpTo_build (nodup_activeIds_of_rearranged moved.symm)
    have own := upTo.settled.level id level found
    obtain ⟨level', found'⟩ :=
      upTo'.found id ((perm_activeIds moved).mem_iff.mp (upTo.listed id level found))
    have own' := upTo'.settled.level id level' found'
    have counted : ∀ kid ∈ childrenOf (nestingOf (firstParents s.edges (activeIds s))
        (activeIds s)) id,
        countedLevel (build s).parents.get? (build s).levels id kid =
          countedLevel (build s').parents.get? (build s').levels id kid := by
      intro kid member
      have hangs : (build s).parents.get? kid = some id := by
        rw [childrenOf_nestingOf, List.mem_filter, get?_firstParents_activeIds] at member
        rw [get?_parents_of_acyclic moved acyclic]
        exact of_decide_eq_true member.2
      obtain ⟨below, known⟩ := upTo.settled.closed id level found kid member hangs
      have value : countedLevel (build s).parents.get? (build s).levels id kid = below := by
        rw [countedLevel, if_pos hangs, known]
        rfl
      have lower : below < level := by
        rw [own, levelAbove]
        exact Nat.lt_succ_of_le
          (List.le_max_of_le (List.mem_map_of_mem member) (Nat.le_of_eq value.symm))
      rw [value, countedLevel, ← get?_parents_eq moved acyclic, if_pos hangs, ih below lower known]
      rfl
    have equal : level = level' := by
      rw [own, own', levelAbove, levelAbove, List.map_congr_left counted]
      exact congrArg (· + 1) (((perm_childrenOf moved id).map _).foldr_eq 0)
    rw [equal]
    exact found'

theorem get?_levels_eq : (build s).levels.get? = (build s').levels.get? := by
  have acyclic' : ∀ c, ¬ OnCircle (containerOf s') c := containerOf_eq moved ▸ acyclic
  funext id
  apply Option.ext
  intro level
  exact ⟨get?_levels_of_rearranged moved acyclic, get?_levels_of_rearranged moved.symm acyclic'⟩

def bare (e : Entry) : Capability × Nat := (e.capability, e.level)

theorem perm_map_bare_entries :
    ((build s).entries.map bare).Perm ((build s').entries.map bare) := by
  have same : bare ∘ entryOf (build s').parents (build s').levels (build s').placements =
      bare ∘ entryOf (build s).parents (build s).levels (build s).placements := by
    funext c
    simp only [Function.comp_apply, bare, entryOf, get?_parents_eq moved acyclic,
      get?_levels_eq moved acyclic]
  change ((List.map _ _).map bare).Perm ((List.map _ _).map bare)
  rw [List.map_map, List.map_map]
  exact same ▸ (moved.capabilities.filter isActive).map _

end Lookup

section Tools

variable (moved : Rearranged s s')

include moved

theorem placeTools_eq (tools : List Tool) :
    placeTools (activeIds s) s.edges tools = placeTools (activeIds s') s'.edges tools := by
  have attached : ∀ id, attaches (activeIds s) id = attaches (activeIds s') id := by
    intro id
    funext e
    rw [attaches, attaches, contains_activeIds moved]
  simp only [placeTools, toolParents, contains_activeIds moved, attached, moved.edges]

theorem perm_placements : (build s).placements.Perm (build s').placements := by
  change ((placeTools (activeIds s) s.edges s.tools).filter _).Perm
    ((placeTools (activeIds s') s'.edges s'.tools).filter _)
  rw [placeTools_eq moved]
  exact (moved.tools.map _).filter _

theorem perm_orphans : (build s).orphans.Perm (build s').orphans := by
  change (((placeTools (activeIds s) s.edges s.tools).filter _).map _).Perm
    (((placeTools (activeIds s') s'.edges s'.tools).filter _).map _)
  rw [placeTools_eq moved]
  exact ((moved.tools.map _).filter _).map _

theorem nodup_toolIds_of_rearranged : (s.tools.map Tool.id).Nodup :=
  (List.nodup_append.mp moved.distinct).1

theorem parentsOf_eq_of_rearranged : (build s).parentsOf = (build s').parentsOf := by
  funext toolId
  rw [parentsOf, parentsOf,
    find?_eq_of_perm (perm_placements moved)
      (nodup_map_toolId_of_nodup (nodup_toolIds_of_rearranged moved))]

theorem capabilityLinks_eq : (build s).capabilityLinks = (build s').capabilityLinks := by
  change linksBetween (activeIds s) s.edges = linksBetween (activeIds s') s'.edges
  rw [linksBetween, linksBetween, contains_activeIds moved, moved.edges]

theorem related_eq : related (build s).placements = related (build s').placements := by
  have perm := perm_placements moved
  funext first second
  simp only [related, perm.any_eq]

theorem toolLinks_eq : (build s).toolLinks = (build s').toolLinks := by
  change dataFlow (build s).placements s.edges = dataFlow (build s').placements s'.edges
  rw [dataFlow, dataFlow, related_eq moved, moved.edges]

end Tools

end CapabilityAtlas.Hierarchy
