import CapabilityAtlas.Proofs.Hierarchy.Nesting
import Mathlib.Data.List.Chain
import Mathlib.Data.Set.Card
import Mathlib.Logic.Relation
import Mathlib.Order.Bounds.Defs

set_option autoImplicit false
set_option relaxedAutoImplicit false

/-!
Levels of children that may lie on circles. Levels become known in some order: an id takes one more
than the highest level of those children that are known by then, and the other children lead back to
it. All that a level says about what lies below its id follows from that order.
-/

namespace CapabilityAtlas.Hierarchy

variable {nesting : Nesting} {known : Keyed Nat} {id x : String} {level : Nat}

def HasChild (nesting : Nesting) (id kid : String) : Prop := kid ∈ childrenOf nesting id

abbrev LeadsTo (nesting : Nesting) : String → String → Prop :=
  Relation.ReflTransGen (HasChild nesting)

/-- Whether no id lies below itself. -/
def Acyclic (nesting : Nesting) : Prop := ∀ id, ¬ Relation.TransGen (HasChild nesting) id id

/-- A way down from an id, on which each id is a child of the one before. -/
structure Descent (nesting : Nesting) (id : String) (way : List String) : Prop where
  starts : way.head? = some id
  linked : way.IsChain (HasChild nesting)

def levelOrOne (known : Keyed Nat) (kid : String) : Nat := (known.get? kid).getD 1

/-- The level of an id according to the levels that are known. -/
def levelOver (nesting : Nesting) (known : Keyed Nat) (id : String) : Nat :=
  ((childrenOf nesting id).map (levelOrOne known)).foldr max 0 + 1

/-- Levels that have become known in turn, the last one at the end. -/
inductive InTurn (nesting : Nesting) : Keyed Nat → Prop
  | nil : InTurn nesting []
  | concat {known : Keyed Nat} {id : String} (turn : InTurn nesting known)
      (new : id ∉ known.keys)
      (met : ∀ kid ∈ childrenOf nesting id, kid ∈ known.keys ∨ LeadsTo nesting kid id) :
      InTurn nesting (known ++ [(id, levelOver nesting known id)])

/-- What the level of an id says about what lies below it. -/
structure Measures (nesting : Nesting) (levels : Keyed Nat) (id : String) (level : Nat) : Prop where
  leaf : childrenOf nesting id = [] → level = 1
  inner : childrenOf nesting id ≠ [] → 2 ≤ level
  above : ∀ kid ∈ childrenOf nesting id, ¬ LeadsTo nesting kid id →
    ∃ below, levels.get? kid = some below ∧ below + 1 ≤ level
  bounded : level ≤ 1 + {x | LeadsTo nesting id x}.ncard
  longest : Acyclic nesting →
    IsGreatest {n | ∃ way, Descent nesting id way ∧ way.length = n} level

private theorem Descent.singleton (nesting : Nesting) (id : String) : Descent nesting id [id] :=
  ⟨rfl, List.isChain_singleton id⟩

private theorem Descent.cons {kid : String} {way : List String} (step : HasChild nesting id kid)
    (descent : Descent nesting kid way) : Descent nesting id (id :: way) := by
  obtain ⟨starts, linked⟩ := descent
  cases way with
  | nil => simp at starts
  | cons first rest =>
    obtain rfl : first = kid := by simpa using starts
    exact ⟨rfl, List.isChain_cons_cons.mpr ⟨step, linked⟩⟩

private theorem Descent.leadsTo {way : List String} (descent : Descent nesting id way)
    (member : x ∈ way) : LeadsTo nesting id x := by
  induction way generalizing id with
  | nil => simp at member
  | cons first rest ih =>
    obtain rfl : first = id := by simpa using descent.starts
    rcases List.mem_cons.mp member with rfl | later
    · exact Relation.ReflTransGen.refl
    · cases rest with
      | nil => simp at later
      | cons second rest =>
        obtain ⟨step, linked⟩ := List.isChain_cons_cons.mp descent.linked
        exact (ih ⟨rfl, linked⟩ later).head step

theorem levelOrOne_of_get? (found : known.get? id = some level) : levelOrOne known id = level := by
  rw [levelOrOne, found, Option.getD_some]

theorem levelOrOne_of_not_mem (new : id ∉ known.keys) : levelOrOne known id = 1 := by
  cases found : known.get? id with
  | none => rw [levelOrOne, found, Option.getD_none]
  | some level => exact (new (Keyed.mem_keys_iff.mpr ⟨level, found⟩)).elim

private theorem levelOver_of_leaf (leaf : childrenOf nesting id = []) :
    levelOver nesting known id = 1 := by
  rw [levelOver, leaf, List.map_nil, List.foldr_nil]

private theorem exists_levelOver_eq (known : Keyed Nat) (fertile : childrenOf nesting id ≠ []) :
    ∃ kid ∈ childrenOf nesting id, levelOver nesting known id = levelOrOne known kid + 1 := by
  have reached : ∀ kids : List String, kids ≠ [] →
      ∃ kid ∈ kids, (kids.map (levelOrOne known)).foldr max 0 = levelOrOne known kid := by
    intro kids
    induction kids with
    | nil => exact fun barren => (barren rfl).elim
    | cons kid rest ih =>
      intro _
      rw [List.map_cons, List.foldr_cons]
      by_cases last : rest = []
      · exact ⟨kid, List.mem_cons_self, by simp [last]⟩
      · obtain ⟨top, member, highest⟩ := ih last
        rcases Nat.le_total (levelOrOne known kid) (levelOrOne known top) with below | below
        · exact ⟨top, List.mem_cons_of_mem _ member, by rw [highest, Nat.max_eq_right below]⟩
        · exact ⟨kid, List.mem_cons_self, by rw [highest, Nat.max_eq_left below]⟩
  obtain ⟨kid, member, highest⟩ := reached _ fertile
  exact ⟨kid, member, by rw [levelOver, highest]⟩

private theorem levelOrOne_lt_levelOver {kid : String} (member : kid ∈ childrenOf nesting id) :
    levelOrOne known kid + 1 ≤ levelOver nesting known id :=
  Nat.succ_le_succ (List.le_max_of_le' 0 (List.mem_map_of_mem member) (Nat.le_refl _))

namespace InTurn

theorem nodup (turn : InTurn nesting known) : known.keys.Nodup := by
  induction turn with
  | nil => exact List.nodup_nil
  | @concat known id _ new _ ih =>
    rw [← Keyed.put_of_not_mem new]
    exact Keyed.nodup_keys_put ih _ _

/-- How a level became known: over levels that were known before it. -/
private theorem exists_before (turn : InTurn nesting known) (found : known.get? id = some level) :
    ∃ before after, known = before ++ after ∧ InTurn nesting before ∧
      level = levelOver nesting before id ∧
      ∀ kid ∈ childrenOf nesting id, kid ∈ before.keys ∨ LeadsTo nesting kid id := by
  induction turn with
  | nil => simp [Keyed.get?] at found
  | @concat known last turn new met ih =>
    rcases Keyed.get?_concat_cases found with earlier | ⟨rfl, rfl⟩
    · obtain ⟨before, after, rfl, history⟩ := ih earlier
      exact ⟨before, after ++ [(last, _)], List.append_assoc _ _ _, history⟩
    · exact ⟨known, _, rfl, turn, rfl, met⟩

private theorem pos (turn : InTurn nesting known) (found : known.get? id = some level) :
    1 ≤ level := by
  obtain ⟨before, _, -, -, rfl, -⟩ := turn.exists_before found
  exact Nat.le_add_left 1 _

private theorem levelOrOne_pos (turn : InTurn nesting known) (kid : String) :
    1 ≤ levelOrOne known kid := by
  by_cases member : kid ∈ known.keys
  · obtain ⟨level, found⟩ := Keyed.mem_keys_iff.mp member
    rw [levelOrOne_of_get? found]
    exact turn.pos found
  · rw [levelOrOne_of_not_mem member]

private theorem eq_one_of_leaf (turn : InTurn nesting known) (found : known.get? id = some level)
    (leaf : childrenOf nesting id = []) : level = 1 := by
  obtain ⟨before, _, -, -, rfl, -⟩ := turn.exists_before found
  exact levelOver_of_leaf leaf

private theorem two_le_of_inner (turn : InTurn nesting known) (found : known.get? id = some level)
    (fertile : childrenOf nesting id ≠ []) : 2 ≤ level := by
  obtain ⟨before, _, -, turn', rfl, -⟩ := turn.exists_before found
  obtain ⟨kid, -, highest⟩ := exists_levelOver_eq before fertile
  rw [highest]
  exact Nat.succ_le_succ (turn'.levelOrOne_pos kid)

private theorem exists_below (turn : InTurn nesting known) (found : known.get? id = some level)
    {kid : String} (member : kid ∈ childrenOf nesting id) (apart : ¬ LeadsTo nesting kid id) :
    ∃ below, known.get? kid = some below ∧ below + 1 ≤ level := by
  obtain ⟨before, after, rfl, -, rfl, met⟩ := turn.exists_before found
  obtain ⟨below, earlier⟩ := Keyed.mem_keys_iff.mp ((met kid member).resolve_right apart)
  refine ⟨below, Keyed.get?_append_of_get? earlier, ?_⟩
  rw [← levelOrOne_of_get? earlier]
  exact levelOrOne_lt_levelOver member

/-- Every level is nearly reached by a way down over known ids, none of them met twice; without
circles it is reached. -/
theorem exists_descent (turn : InTurn nesting known) (found : known.get? id = some level) :
    ∃ way, Descent nesting id way ∧ way.Nodup ∧ (∀ x ∈ way, x ∈ known.keys) ∧
      level ≤ way.length + 1 ∧ (Acyclic nesting → level = way.length) := by
  induction turn generalizing id level with
  | nil => simp [Keyed.get?] at found
  | @concat known last turn new met ih =>
    simp only [Keyed.keys_concat, List.mem_append, List.mem_singleton]
    rcases Keyed.get?_concat_cases found with earlier | ⟨rfl, rfl⟩
    · obtain ⟨way, descent, nodup, inside, length⟩ := ih earlier
      exact ⟨way, descent, nodup, fun x member => Or.inl (inside x member), length⟩
    · by_cases leaf : childrenOf nesting id = []
      · refine ⟨[id], Descent.singleton nesting id, List.nodup_singleton id, by simp, ?_⟩
        rw [levelOver_of_leaf leaf]
        exact ⟨by simp, fun _ => by simp⟩
      · obtain ⟨kid, member, highest⟩ := exists_levelOver_eq known leaf
        rw [highest]
        by_cases earlier : kid ∈ known.keys
        · -- The way goes on below the highest child, and the id itself is new to it.
          obtain ⟨below, before⟩ := Keyed.mem_keys_iff.mp earlier
          obtain ⟨way, descent, nodup, inside, bound, exact⟩ := ih before
          rw [levelOrOne_of_get? before]
          refine ⟨id :: way, descent.cons member,
            List.nodup_cons.mpr ⟨fun again => new (inside id again), nodup⟩, ?_, ?_, ?_⟩
          · intro x onWay
            exact (List.mem_cons.mp onWay).symm.imp_left (inside x)
          · exact Nat.succ_le_succ bound
          · exact fun acyclic => congrArg (· + 1) (exact acyclic)
        · -- The highest child leads back: the way ends here, one short of the level.
          rw [levelOrOne_of_not_mem earlier]
          refine ⟨[id], Descent.singleton nesting id, List.nodup_singleton id, by simp, by simp,
            fun acyclic => ?_⟩
          have back := (met kid member).resolve_left earlier
          exact (acyclic id (Relation.TransGen.head' member back)).elim

/-- Without circles no way down has more ids than the level of its first. -/
theorem length_le (turn : InTurn nesting known) (acyclic : Acyclic nesting) {way : List String}
    (descent : Descent nesting id way) (found : known.get? id = some level) :
    way.length ≤ level := by
  induction way generalizing id level with
  | nil => exact Nat.zero_le _
  | cons first rest ih =>
    obtain rfl : first = id := by simpa using descent.starts
    cases rest with
    | nil => exact turn.pos found
    | cons second rest =>
      obtain ⟨step, linked⟩ := List.isChain_cons_cons.mp descent.linked
      obtain ⟨below, known, lower⟩ := turn.exists_below found step
        fun back => acyclic first (Relation.TransGen.head' step back)
      exact (Nat.succ_le_succ (ih ⟨rfl, linked⟩ known)).trans lower

end InTurn

theorem mem_of_leadsTo {ids : List String}
    (closed : ∀ x ∈ ids, ∀ kid ∈ childrenOf nesting x, kid ∈ ids) (member : id ∈ ids)
    (leads : LeadsTo nesting id x) : x ∈ ids := by
  induction leads with
  | refl => exact member
  | tail _ step ih => exact closed _ ih _ step

/-- Levels that became known in turn measure what lies below, as soon as all of that is known. -/
theorem InTurn.measures (turn : InTurn nesting known)
    (closed : ∀ x ∈ known.keys, ∀ kid ∈ childrenOf nesting x, kid ∈ known.keys)
    (found : known.get? id = some level) : Measures nesting known id level := by
  obtain ⟨way, descent, nodup, -, bound, exact⟩ := turn.exists_descent found
  refine ⟨turn.eq_one_of_leaf found, turn.two_le_of_inner found,
    fun kid member apart => turn.exists_below found member apart, ?_, ?_⟩
  · have finite : {x | LeadsTo nesting id x}.Finite := by
      refine (List.finite_toSet known.keys).subset fun x leads => ?_
      exact mem_of_leadsTo closed (Keyed.mem_keys_iff.mpr ⟨level, found⟩) leads
    have inside : (way.toFinset : Set String) ⊆ {x | LeadsTo nesting id x} := by
      intro x member
      exact descent.leadsTo (List.mem_toFinset.mp member)
    have counted := Set.ncard_le_ncard inside finite
    rw [Set.ncard_coe_finset, List.toFinset_card_of_nodup nodup] at counted
    omega
  · intro acyclic
    refine ⟨⟨way, descent, (exact acyclic).symm⟩, ?_⟩
    rintro _ ⟨other, below, rfl⟩
    exact turn.length_le acyclic below found

end CapabilityAtlas.Hierarchy
