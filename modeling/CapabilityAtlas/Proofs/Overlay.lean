import CapabilityAtlas.Engine
import CapabilityAtlas.Proofs.Geometry.Outline
import CapabilityAtlas.Proofs.Hierarchy.Instance

set_option autoImplicit false
set_option relaxedAutoImplicit false

/-!
What an outline of some nodes is drawn around. A position is taken if its key is an id or starts
with an id and a separator. That reaches every instance of the nodes, and besides them every key
that happens to start in the same way.
-/

namespace CapabilityAtlas

open CapabilityAtlas.Geometry CapabilityAtlas.Hierarchy

namespace Engine

variable {payload : Payload} {s : Snapshot} {ids : List String} {key : String}

/-- The ids that positions are given for: used capabilities, tools and instances. -/
def placedIds (s : Snapshot) : List String :=
  activeIds s ++ s.tools.map Tool.id ++ (instances (build s)).map ToolInstance.id

/-- Whether a key is one of some ids or that of an instance of a tool with one of them. -/
def Belongs (s : Snapshot) (ids : List String) (key : String) : Prop :=
  key ∈ ids ∨ ∃ i ∈ instances (build s), i.id = key ∧ i.tool.id ∈ ids

instance decidableBelongs (s : Snapshot) (ids : List String) (key : String) :
    Decidable (Belongs s ids key) :=
  inferInstanceAs (Decidable (_ ∨ _))

def belongingPoints (s : Snapshot) (ids : List String) (positions : Keyed (Point Float)) :
    List (Point Float) :=
  (positions.filter (fun entry => Belongs s ids entry.1)).map Prod.snd

/-- Whether a key starts with one of some ids and a separator. -/
def Continues (ids : List String) (key : String) : Prop :=
  ∃ id ∈ ids, id.toList ++ separator <+: key.toList

private theorem isWanted_iff : isWanted ids key ↔ key ∈ ids ∨ Continues ids key := by
  have text : ∀ id : String, (id ++ instanceSeparator).toList = id.toList ++ separator := by
    intro id
    rw [String.toList_append]
    rfl
  simp [isWanted, Continues, text]

private theorem isWanted_of_belongs (accepted : Snapshot.ofPayload payload = .ok s)
    (belongs : Belongs s ids key) : isWanted ids key := by
  rw [isWanted_iff]
  rcases belongs with own | ⟨i, member, rfl, wanted⟩
  · exact Or.inl own
  · obtain ⟨p, -, parent, -, rfl⟩ := (mem_instances (nodup_activeIds accepted)).mp member
    by_cases shared : p.isShared
    · refine Or.inr ⟨p.tool.id, wanted, ?_⟩
      rw [id_instanceIn_of_shared shared, toList_instanceId]
      exact List.prefix_append _ _
    · left
      rw [id_instanceIn_of_single shared]
      exact wanted

private theorem belongs_of_continues (accepted : Snapshot.ofPayload payload = .ok s)
    (capabilities : ∀ id ∈ activeIds s, ¬ Separated id) (tools : ∀ t ∈ s.tools, Sealed t.id)
    (closed : ∀ id ∈ ids, Sealed id) (placed : key ∈ placedIds s) (continues : Continues ids key) :
    Belongs s ids key := by
  obtain ⟨id, wanted, starts⟩ := continues
  have separated : Separated key := ((List.suffix_append _ _).isInfix).trans starts.isInfix
  rw [placedIds, List.mem_append, List.mem_append] at placed
  rcases placed with (capability | tool) | instance'
  · exact (capabilities key capability separated).elim
  · obtain ⟨t, member, rfl⟩ := List.mem_map.mp tool
    exact (not_separated_of_sealed (tools t member) separated).elim
  · obtain ⟨i, member, rfl⟩ := List.mem_map.mp instance'
    obtain ⟨p, inside, parent, own, rfl⟩ := (mem_instances (nodup_activeIds accepted)).mp member
    have sealedTool : Sealed p.tool.id := tools p.tool (of_mem_placements inside).1
    by_cases shared : p.isShared
    · -- Both the id and the tool end where the separator first occurs.
      rw [id_instanceIn_of_shared shared] at starts
      have read := toolPart_eq_some_iff.mpr ⟨starts, closed id wanted⟩
      rw [toolPart_instanceId, front_eq_iff.mpr sealedTool] at read
      have same : p.tool.id = id := String.toList_inj.mp (Option.some.inj read)
      exact Or.inr ⟨_, member, rfl, same ▸ wanted⟩
    · rw [id_instanceIn_of_single shared] at separated
      exact (not_separated_of_sealed sealedTool separated).elim

/-- The positions of some ids and their instances are always taken, and an outline is drawn around
just these exactly if no other key continues one of the ids. -/
theorem pointsFor_eq_iff (accepted : Snapshot.ofPayload payload = .ok s) (ids : List String)
    (positions : Keyed (Point Float)) :
    (belongingPoints s ids positions).Sublist (pointsFor ids positions) ∧
    (pointsFor ids positions = belongingPoints s ids positions ↔
      ∀ key ∈ positions.keys, Continues ids key → Belongs s ids key) ∧
    ((∀ key ∈ positions.keys, Continues ids key → Belongs s ids key) →
      ∀ padding smooth settings, clusterOutline ids positions padding smooth settings =
        outline (outlineStyle padding smooth settings) (belongingPoints s ids positions)) := by
  have wider : ∀ entry : String × Point Float, Belongs s ids entry.1 → isWanted ids entry.1 :=
    fun _ belongs => isWanted_of_belongs accepted belongs
  have within : (positions.filter (fun entry => Belongs s ids entry.1)).Sublist
      (positions.filter (fun entry => isWanted ids entry.1)) := by
    refine List.monotone_filter_right positions fun entry belongs => ?_
    exact wider entry (of_decide_eq_true belongs)
  have exact_of_clear : (∀ key ∈ positions.keys, Continues ids key → Belongs s ids key) →
      pointsFor ids positions = belongingPoints s ids positions := by
    intro clear
    rw [pointsFor, belongingPoints]
    refine congrArg (List.map Prod.snd) (List.filter_congr fun entry member => ?_)
    rw [Bool.eq_iff_iff, decide_eq_true_iff]
    refine ⟨fun wanted => ?_, wider entry⟩
    rcases isWanted_iff.mp wanted with own | continues
    · exact Or.inl own
    · exact clear entry.1 (List.mem_map_of_mem member) continues
  refine ⟨within.map Prod.snd, ⟨?_, exact_of_clear⟩, ?_⟩
  · intro same key listed continues
    obtain ⟨entry, member, rfl⟩ := List.mem_map.mp listed
    have lengths := congrArg List.length same
    rw [pointsFor, belongingPoints, List.length_map, List.length_map] at lengths
    have taken : entry ∈ positions.filter (fun entry => isWanted ids entry.1) :=
      List.mem_filter.mpr ⟨member, isWanted_iff.mpr (Or.inr continues)⟩
    rw [← within.eq_of_length lengths.symm] at taken
    exact of_decide_eq_true (List.mem_filter.mp taken).2
  · intro clear padding smooth settings
    rw [clusterOutline, exact_of_clear clear]

theorem pointsFor_eq_of_shared :
    ∃ s, Snapshot.ofPayload (sharedToolPayload "fs") = .ok s ∧
      (∀ key ∈ ["c", "fs__c", "fs__d"], key ∈ placedIds s) ∧
      ∀ p q r : Point Float, pointsFor ["fs"] [("c", p), ("fs__c", q), ("fs__d", r)] = [q, r] ∧
        clusterOutline ["fs"] [("c", p), ("fs__c", q), ("fs__d", r)] none false =
          outline (outlineStyle none false) [q, r] := by
  obtain ⟨s, accepted, placed, capabilities, tools, alone, first, second⟩ : ∃ s,
      Snapshot.ofPayload (sharedToolPayload "fs") = .ok s ∧
      (∀ key ∈ ["c", "fs__c", "fs__d"], key ∈ placedIds s) ∧
      (∀ id ∈ activeIds s, ¬ Separated id) ∧ (∀ t ∈ s.tools, Sealed t.id) ∧
      ¬ Belongs s ["fs"] "c" ∧ Belongs s ["fs"] "fs__c" ∧ Belongs s ["fs"] "fs__d" :=
    ⟨_, rfl, by decide +kernel, by decide +kernel, by decide +kernel, by decide +kernel,
      by decide +kernel, by decide +kernel⟩
  refine ⟨s, accepted, placed, fun p q r => ?_⟩
  have own : belongingPoints s ["fs"] [("c", p), ("fs__c", q), ("fs__d", r)] = [q, r] := by
    simp [belongingPoints, alone, first, second]
  have clear : ∀ key ∈ Keyed.keys [("c", p), ("fs__c", q), ("fs__d", r)],
      Continues ["fs"] key → Belongs s ["fs"] key := fun key listed =>
    belongs_of_continues accepted capabilities tools (by decide) (placed key listed)
  obtain ⟨-, same, outlines⟩ := pointsFor_eq_iff accepted ["fs"]
    [("c", p), ("fs__c", q), ("fs__d", r)]
  rw [own] at same outlines
  exact ⟨same.mpr clear, outlines clear none false Settings.standard⟩

/-- A capability with two tools, the id of one of which continues that of the other. -/
def prefixedToolPayload : Payload :=
  .record [
    ("nodes", .list [
      .record [("id", .text "c"), ("type", .text "capability"), ("usage_count", .int 1)],
      .record [("id", .text "fs"), ("type", .text "tool"), ("parents", .list [.text "c"])],
      .record [("id", .text "fs__read"), ("type", .text "tool"), ("parents", .list [.text "c"])]]),
    ("edges", .list [])]

/-- The outline of a tool reaches another tool whose id continues its own. -/
theorem not_pointsFor_eq :
    ∃ s, Snapshot.ofPayload prefixedToolPayload = .ok s ∧
      (∀ key ∈ ["fs", "fs__read"], key ∈ placedIds s) ∧ ¬ Belongs s ["fs"] "fs__read" ∧
      let positions : Keyed (Point Float) := [("fs", ⟨0, 0⟩), ("fs__read", ⟨100, 0⟩)]
      pointsFor ["fs"] positions = [⟨0, 0⟩, ⟨100, 0⟩] ∧
      belongingPoints s ["fs"] positions = [⟨0, 0⟩] ∧
      clusterOutline ["fs"] positions none false ≠
        outline (outlineStyle none false) (belongingPoints s ["fs"] positions) := by
  obtain ⟨s, accepted, placed, own, other⟩ : ∃ s,
      Snapshot.ofPayload prefixedToolPayload = .ok s ∧
      (∀ key ∈ ["fs", "fs__read"], key ∈ placedIds s) ∧ Belongs s ["fs"] "fs" ∧
      ¬ Belongs s ["fs"] "fs__read" :=
    ⟨_, rfl, by decide +kernel, by decide +kernel, by decide +kernel⟩
  have belonging : belongingPoints s ["fs"] [("fs", ⟨0, 0⟩), ("fs__read", ⟨100, 0⟩)] =
      [⟨0, 0⟩] := by
    simp [belongingPoints, own, other]
  have taken : pointsFor ["fs"] [("fs", ⟨0, 0⟩), ("fs__read", ⟨100, 0⟩)] =
      [⟨0, 0⟩, ⟨100, 0⟩] := by
    have both : isWanted ["fs"] "fs" ∧ isWanted ["fs"] "fs__read" := by decide
    simp [pointsFor, both]
  refine ⟨s, accepted, placed, other, taken, belonging, ?_⟩
  rw [clusterOutline, taken, belonging]
  intro same
  have blank : outline (outlineStyle none false) [(⟨0, 0⟩ : Point Float)] = [] :=
    (outline_eq_nil_iff _ _).mpr (by decide)
  rw [blank, outline_eq_nil_iff] at same
  exact absurd same (by decide +kernel)

end Engine

end CapabilityAtlas
