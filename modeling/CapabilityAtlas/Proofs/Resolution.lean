import CapabilityAtlas.Engine
import CapabilityAtlas.Proofs.Hierarchy.Instance

set_option autoImplicit false
set_option relaxedAutoImplicit false

/-!
What an instance is highlighted as. The id of an instance of a shared tool is looked up like any
other id: as it stands if it is at an edge, and otherwise cut at its first separator.
-/

namespace CapabilityAtlas

open CapabilityAtlas.Hierarchy

namespace Neighborhood

variable {edges : List Edge}

/-- The node of an id itself, none if it is at no edge. -/
def ownNode (edges : List Edge) (id : String) : Option String :=
  if isKnown edges id then some id else none

private theorem ownNode_eq_none_iff {id : String} :
    ownNode edges id = none ↔ ¬ isKnown edges id := by
  unfold ownNode
  split <;> simp_all

private theorem eq_of_ownNode_eq_some {id node : String} (own : ownNode edges id = some node) :
    node = id ∧ isKnown edges id := by
  unfold ownNode at own
  split at own
  · rename_i known
    exact ⟨(Option.some.inj own).symm, known⟩
  · simp at own

theorem resolve_of_isKnown {id : String} (known : isKnown edges id) :
    resolve edges id = some id := by
  rw [resolve, if_pos known]

private theorem resolve_of_toolPart {id part : String} (unknown : ¬ isKnown edges id)
    (cut : toolPart id.toList = some part.toList) : resolve edges id = ownNode edges part := by
  rw [resolve, if_neg unknown, cut, Option.map_some, String.ofList_toList, Option.filter_some]
  rfl

private theorem resolve_of_not_separated {id : String} (unknown : ¬ isKnown edges id)
    (whole : ¬ Separated id) : resolve edges id = none := by
  rw [resolve, if_neg unknown, toolPart_eq_none_iff.mpr whole]
  rfl

/-- A tool id is looked up as its own node unless it is at no edge and a part of it is at one. -/
private theorem resolve_eq_ownNode_iff {id : String} :
    resolve edges id = ownNode edges id ↔
      isKnown edges id ∨ ¬ Separated id ∨ ¬ isKnown edges (front id) := by
  by_cases known : isKnown edges id
  · rw [resolve_of_isKnown known, ownNode, if_pos known]
    simp [known]
  · rw [ownNode_eq_none_iff.mpr known]
    by_cases separated : Separated id
    · rw [resolve_of_toolPart known (toolPart_of_separated separated), ownNode_eq_none_iff]
      simp [known, separated]
    · rw [resolve_of_not_separated known separated]
      simp [separated]

/-- The id of an instance of a shared tool is looked up as the tool if it is at no edge itself and
is cut right after the tool, or if neither the tool nor what it is cut to is at an edge. -/
private theorem resolve_instanceId_iff {toolId parentId : String} :
    resolve edges (instanceId toolId parentId true) = ownNode edges toolId ↔
      ¬ isKnown edges (instanceId toolId parentId true) ∧
        (Sealed toolId ∨ ¬ isKnown edges toolId ∧ ¬ isKnown edges (front toolId)) := by
  by_cases known : isKnown edges (instanceId toolId parentId true)
  · rw [resolve_of_isKnown known]
    refine iff_of_false (fun own => ?_) fun both => both.1 known
    exact instanceId_ne_toolId toolId parentId (eq_of_ownNode_eq_some own.symm).1
  · rw [resolve_of_toolPart known (toolPart_instanceId toolId parentId), and_iff_right known]
    by_cases closed : Sealed toolId
    · rw [front_eq_iff.mpr closed]
      simp [closed]
    · -- The cut falls inside the tool, and what is cut off is another node or none.
      rw [or_iff_right closed]
      constructor
      · intro same
        cases own : ownNode edges toolId with
        | none =>
          exact ⟨ownNode_eq_none_iff.mp own, ownNode_eq_none_iff.mp (same.trans own)⟩
        | some node =>
          obtain ⟨rfl, -⟩ := eq_of_ownNode_eq_some own
          exact (closed (front_eq_iff.mp (eq_of_ownNode_eq_some (same.trans own)).1.symm)).elim
      · rintro ⟨tool, part⟩
        rw [ownNode_eq_none_iff.mpr tool, ownNode_eq_none_iff.mpr part]

/-- Whether the id of an instance leads back to its tool, or to nothing if the tool is at no edge.
-/
def ReadBack (edges : List Edge) (i : ToolInstance) : Prop :=
  if i.isShared then
    ¬ isKnown edges i.id ∧
      (Sealed i.tool.id ∨ ¬ isKnown edges i.tool.id ∧ ¬ isKnown edges (front i.tool.id))
  else
    isKnown edges i.tool.id ∨ ¬ Separated i.tool.id ∨ ¬ isKnown edges (front i.tool.id)

private theorem readBack_of_sealed {i : ToolInstance} (closed : Sealed i.tool.id)
    (free : i.isShared → ¬ isKnown edges i.id) : ReadBack edges i := by
  unfold ReadBack
  split
  · rename_i shared
    exact ⟨free shared, Or.inl closed⟩
  · exact Or.inr (Or.inl (not_separated_of_sealed closed))

/-- Where the id of an instance leads back to the tool, so does the id of the tool. -/
theorem resolve_toolId_of_readBack {i : ToolInstance} (back : ReadBack edges i) :
    resolve edges i.tool.id = ownNode edges i.tool.id := by
  rw [resolve_eq_ownNode_iff]
  unfold ReadBack at back
  split at back
  · rcases back.2 with closed | ⟨-, part⟩
    · exact Or.inr (Or.inl (not_separated_of_sealed closed))
    · exact Or.inr (Or.inr part)
  · exact back

theorem resolve_instance_iff {p : Placement} {parent : String} :
    resolve edges (p.instanceIn parent).id = ownNode edges p.tool.id ↔
      ReadBack edges (p.instanceIn parent) := by
  have same : (p.instanceIn parent).isShared = p.isShared := rfl
  unfold ReadBack
  rw [same]
  split
  · rename_i shared
    rw [id_instanceIn_of_shared shared]
    exact resolve_instanceId_iff
  · rename_i single
    rw [id_instanceIn_of_single single]
    exact resolve_eq_ownNode_iff

theorem isKnown_of_resolve {id node : String} (resolved : resolve edges id = some node) :
    isKnown edges node := by
  unfold resolve at resolved
  split at resolved
  · rename_i known
    exact Option.some.inj resolved ▸ known
  · exact (Option.filter_eq_some_iff.mp resolved).2

private theorem start_ofResolved (search : GraphSearch) (hops : Int) (resolved : Option String) :
    (ofResolved search edges hops resolved).start = resolved := by
  cases resolved with
  | none => rfl
  | some start =>
    rw [ofResolved, around]
    split <;> rfl

theorem depth_ofResolved (search : GraphSearch) (edges : List Edge) (hops : Int)
    (resolved : Option String) : (ofResolved search edges hops resolved).depth = hops := by
  cases resolved with
  | none => rfl
  | some start =>
    rw [ofResolved, around]
    split
    · rename_i zero
      exact zero.symm
    · rfl

end Neighborhood

open Neighborhood

namespace Engine

/-- Two ids are highlighted alike at every depth exactly if they are looked up as one node. -/
theorem highlight_eq_iff (e : Engine) {id other : String} :
    (∀ depth, e.highlight (.text id) depth = e.highlight (.text other) depth) ↔
      resolve e.snapshot.edges id = resolve e.snapshot.edges other := by
  constructor
  · intro alike
    have neighborhoods := congrArg Neighborhood.start (Except.ok.inj (alike .null))
    rwa [start_ofResolved, start_ofResolved] at neighborhoods
  · intro same depth
    have resolved : resolveValue e.snapshot.edges (.text id) =
        resolveValue e.snapshot.edges (.text other) := congrArg Except.ok same
    unfold highlight expandValue expandWith
    rw [resolved]

/-- An instance is highlighted as its tool at every depth, and looked up as the tool's own node,
exactly if its id is read back. -/
theorem highlight_instance_iff {payload : Payload} {s : Snapshot}
    (accepted : Snapshot.ofPayload payload = .ok s) (maxHops : Int) (limits : Search.Limits)
    (settings : Settings Float) {i : ToolInstance}
    (member : i ∈ instances (Hierarchy.build s)) :
    ((∀ depth, (start s maxHops limits settings).highlight (.text i.id) depth =
        (start s maxHops limits settings).highlight (.text i.tool.id) depth) ∧
      resolve s.edges i.id = ownNode s.edges i.tool.id) ↔ ReadBack s.edges i := by
  obtain ⟨p, placed, parent, inside, rfl⟩ := (mem_instances (nodup_activeIds accepted)).mp member
  rw [highlight_eq_iff]
  constructor
  · rintro ⟨-, own⟩
    exact resolve_instance_iff.mp own
  · intro back
    have own := resolve_instance_iff.mpr back
    exact ⟨own.trans (resolve_toolId_of_readBack back).symm, own⟩

abbrev standardLimits : Search.Limits := (Settings.standard : Settings Float).search

theorem highlight_instance_iff_of_shared :
    ∃ s i, Snapshot.ofPayload (sharedToolPayload "fs_read") = .ok s ∧
      i ∈ instances (Hierarchy.build s) ∧ i.id = "fs_read__c" ∧
      resolve s.edges i.id = some "fs_read" ∧
      ∀ depth, (start s 10 standardLimits).highlight (.text "fs_read__c") depth =
        (start s 10 standardLimits).highlight (.text "fs_read") depth := by
  obtain ⟨s, accepted, ids, known, free⟩ : ∃ s,
      Snapshot.ofPayload (sharedToolPayload "fs_read") = .ok s ∧
      ("fs_read__c", "fs_read") ∈
        (instances (Hierarchy.build s)).map (fun i => (i.id, i.tool.id)) ∧
      isKnown s.edges "fs_read" ∧ ¬ isKnown s.edges "fs_read__c" :=
    ⟨_, rfl, by decide +kernel, by decide +kernel, by decide +kernel⟩
  obtain ⟨i, member, same⟩ := List.mem_map.mp ids
  obtain ⟨id, tool⟩ := Prod.mk.inj same
  have back : ReadBack s.edges i :=
    readBack_of_sealed (by rw [tool]; decide +kernel) fun _ => by rwa [id]
  obtain ⟨alike, own⟩ :=
    (highlight_instance_iff accepted 10 standardLimits Settings.standard member).mpr back
  rw [id, tool] at alike
  refine ⟨s, i, accepted, member, id, ?_, alike⟩
  rw [own, tool, ownNode, if_pos known]

/-- A tool whose id holds a separator is found by its own id and not by those of its instances. -/
theorem not_highlight_instance :
    ∃ s i, Snapshot.ofPayload (sharedToolPayload "fs__read") = .ok s ∧
      i ∈ instances (Hierarchy.build s) ∧ i.id = "fs__read__c" ∧ i.tool.id = "fs__read" ∧
      resolve s.edges i.id = none ∧ resolve s.edges i.tool.id = some "fs__read" ∧
      ¬ ∀ depth, (start s 10 standardLimits).highlight (.text i.id) depth =
        (start s 10 standardLimits).highlight (.text i.tool.id) depth := by
  obtain ⟨s, accepted, ids, lost, found⟩ : ∃ s,
      Snapshot.ofPayload (sharedToolPayload "fs__read") = .ok s ∧
      ("fs__read__c", "fs__read") ∈
        (instances (Hierarchy.build s)).map (fun i => (i.id, i.tool.id)) ∧
      resolve s.edges "fs__read__c" = none ∧ resolve s.edges "fs__read" = some "fs__read" :=
    ⟨_, rfl, by decide +kernel, by decide +kernel, by decide +kernel⟩
  obtain ⟨i, member, same⟩ := List.mem_map.mp ids
  obtain ⟨id, tool⟩ := Prod.mk.inj same
  rw [← id] at lost
  rw [← tool] at found
  refine ⟨s, i, accepted, member, id, tool, lost, tool ▸ found, fun alike => ?_⟩
  have one : resolve s.edges i.id = resolve s.edges i.tool.id := (highlight_eq_iff _).mp alike
  rw [lost, found] at one
  simp at one

end Engine

end CapabilityAtlas
