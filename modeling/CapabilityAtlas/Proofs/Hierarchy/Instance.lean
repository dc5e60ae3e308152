import CapabilityAtlas.Neighborhood
import CapabilityAtlas.Proofs.Hierarchy.Membership
import Mathlib.Data.List.Infix
import Mathlib.Data.List.Nodup

set_option autoImplicit false
set_option relaxedAutoImplicit false

/-!
Instance ids and how they are read. An instance id is written as a tool, two underscores and a
parent, and read by cutting it at the first two underscores. That gives the tool back as long as
the underscores of the separator come first, which depends on the id of the tool alone.
-/

namespace CapabilityAtlas.Hierarchy

open Neighborhood (toolPart)

abbrev separator : List Char := ['_', '_']

/-- Whether the separator can occur in a text no earlier than right after an id. -/
def Sealed (id : String) : Prop := ¬ separator <:+: id.toList ++ ['_']

instance decidableSealed (id : String) : Decidable (Sealed id) :=
  inferInstanceAs (Decidable (¬ _))

def Separated (id : String) : Prop := separator <:+: id.toList

instance decidableSeparated (id : String) : Decidable (Separated id) :=
  inferInstanceAs (Decidable (_ <:+: _))

private theorem toolPart_of_starts {c : Char} {rest : List Char} (first : separator <+: c :: rest) :
    toolPart (c :: rest) = some [] := by
  have starts := List.isPrefixOf_iff_prefix.mpr first
  rw [toolPart]
  exact if_pos starts

private theorem toolPart_of_not_starts {c : Char} {rest : List Char}
    (later : ¬ separator <+: c :: rest) :
    toolPart (c :: rest) = (toolPart rest).map (c :: ·) := by
  have starts := List.isPrefixOf_iff_prefix.not.mpr later
  rw [toolPart]
  exact if_neg starts

theorem toolPart_eq_some_iff {text part : List Char} :
    toolPart text = some part ↔
      part ++ separator <+: text ∧ ¬ separator <:+: part ++ ['_'] := by
  induction text generalizing part with
  | nil => simp [toolPart]
  | cons c rest ih =>
    by_cases first : separator <+: c :: rest
    · rw [toolPart_of_starts first, Option.some_inj]
      constructor
      · rintro rfl
        exact ⟨first, by decide⟩
      · rintro ⟨cut, free⟩
        cases part with
        | nil => rfl
        | cons d part =>
          -- The separator at the start would lie within the part and one more underscore.
          have short : separator.length ≤ (d :: part ++ ['_']).length := by simp
          have inside : d :: part ++ ['_'] <+: c :: rest :=
            (List.prefix_append_right_inj (d :: part)).mpr (by simp) |>.trans cut
          exact (free (List.prefix_of_prefix_length_le first inside short).isInfix).elim
    · rw [toolPart_of_not_starts first, Option.map_eq_some_iff]
      constructor
      · rintro ⟨part, found, rfl⟩
        obtain ⟨cut, free⟩ := ih.mp found
        refine ⟨List.cons_prefix_cons.mpr ⟨rfl, cut⟩, ?_⟩
        rw [List.cons_append, List.infix_cons_iff, not_or]
        refine ⟨fun early => first (early.trans ?_), free⟩
        refine List.cons_prefix_cons.mpr ⟨rfl, ?_⟩
        exact (List.prefix_append_right_inj part).mpr (by simp) |>.trans cut
      · rintro ⟨cut, free⟩
        cases part with
        | nil => exact (first cut).elim
        | cons d part =>
          obtain ⟨rfl, later⟩ := List.cons_prefix_cons.mp cut
          rw [List.cons_append, List.infix_cons_iff, not_or] at free
          exact ⟨part, ih.mpr ⟨later, free.2⟩, rfl⟩

theorem toolPart_eq_none_iff {id : String} : toolPart id.toList = none ↔ ¬ Separated id := by
  unfold Separated
  induction id.toList with
  | nil => simp [toolPart]
  | cons c rest ih =>
    rw [List.infix_cons_iff, not_or]
    by_cases first : separator <+: c :: rest
    · simp [toolPart_of_starts first, first]
    · rw [toolPart_of_not_starts first, Option.map_eq_none_iff, ih]
      simp [first]

/-- What is read as the tool of an instance id that starts with a given tool. -/
def front (toolId : String) : String :=
  String.ofList ((toolPart (toolId ++ instanceSeparator).toList).getD [])

theorem toList_instanceId (toolId parentId : String) :
    (instanceId toolId parentId true).toList = toolId.toList ++ separator ++ parentId.toList := by
  rw [instanceId, if_pos rfl, String.toList_append, String.toList_append]
  rfl

theorem instanceId_ne_toolId (toolId parentId : String) :
    instanceId toolId parentId true ≠ toolId := by
  intro same
  have lengths := congrArg (fun id => id.toList.length) same
  simp [toList_instanceId] at lengths

private theorem instanceId_right_inj {toolId parentId parentId' : String}
    (same : instanceId toolId parentId true = instanceId toolId parentId' true) :
    parentId = parentId' := by
  have texts := congrArg String.toList same
  rw [toList_instanceId, toList_instanceId] at texts
  exact String.toList_inj.mp (List.append_cancel_left texts)

theorem toolPart_instanceId (toolId parentId : String) :
    toolPart (instanceId toolId parentId true).toList = some (front toolId).toList := by
  have text : (toolId ++ instanceSeparator).toList = toolId.toList ++ separator := by
    rw [String.toList_append]
    rfl
  obtain ⟨part, found⟩ : ∃ part, toolPart (toolId ++ instanceSeparator).toList = some part := by
    refine Option.ne_none_iff_exists'.mp fun missing => toolPart_eq_none_iff.mp missing ?_
    rw [Separated, text]
    exact (List.suffix_append _ _).isInfix
  have front : (front toolId).toList = part := by
    rw [Hierarchy.front, found, Option.getD_some, String.toList_ofList]
  rw [text] at found
  rw [front, toolPart_eq_some_iff, toList_instanceId]
  obtain ⟨cut, free⟩ := toolPart_eq_some_iff.mp found
  exact ⟨cut.trans (List.prefix_append _ _), free⟩

/-- An instance id is read as its own tool exactly if the id of the tool is sealed. -/
theorem front_eq_iff {toolId : String} : front toolId = toolId ↔ Sealed toolId := by
  have read := toolPart_instanceId toolId ""
  rw [← String.toList_inj, Sealed]
  constructor
  · intro same
    rw [same] at read
    exact (toolPart_eq_some_iff.mp read).2
  · intro free
    have own : toolPart (instanceId toolId "" true).toList = some toolId.toList := by
      rw [toolPart_eq_some_iff, toList_instanceId]
      exact ⟨List.prefix_append _ _, free⟩
    exact Option.some.inj (read.symm.trans own)

theorem toolPart_of_separated {toolId : String} (separated : Separated toolId) :
    toolPart toolId.toList = some (front toolId).toList := by
  obtain ⟨part, found⟩ := Option.ne_none_iff_exists'.mp
    fun missing => toolPart_eq_none_iff.mp missing separated
  obtain ⟨cut, free⟩ := toolPart_eq_some_iff.mp found
  have longer : toolPart (instanceId toolId "" true).toList = some part := by
    rw [toolPart_eq_some_iff, toList_instanceId, List.append_assoc]
    exact ⟨cut.trans (List.prefix_append _ _), free⟩
  rw [found, ← longer, toolPart_instanceId]

theorem not_separated_of_sealed {id : String} (closed : Sealed id) : ¬ Separated id :=
  fun separated => closed (separated.trans (List.prefix_append _ _).isInfix)

private theorem separated_instanceId (toolId parentId : String) :
    Separated (instanceId toolId parentId true) := by
  rw [Separated, toList_instanceId]
  exact ⟨toolId.toList, parentId.toList, rfl⟩

end CapabilityAtlas.Hierarchy

/-!
The instances in a hierarchy: one for each place of a tool in a capability. A tool and a capability
determine their instance, but the ids of two instances can still meet, as the two parts of an
instance id are joined by text that may occur in either of them.
-/

namespace CapabilityAtlas.Hierarchy

def instances (h : Hierarchy) : List ToolInstance := h.walk.flatMap (fun t => t.entry.tools)

/-- The ids of the used capabilities and of all instances. -/
def treeIds (s : Snapshot) : List String :=
  activeIds s ++ (instances (build s)).map ToolInstance.id

/-- Whether no instance of a shared tool has the id of a used capability or of an instance of
another tool. -/
structure Unambiguous (s : Snapshot) : Prop where
  capability : ∀ p ∈ (build s).placements, p.isShared → ∀ parent ∈ p.parents,
    instanceId p.tool.id parent true ∉ activeIds s
  tool : ∀ p ∈ (build s).placements, p.isShared → ∀ parent ∈ p.parents,
    ∀ q ∈ (build s).placements, ∀ other ∈ q.parents,
      instanceId p.tool.id parent true = instanceId q.tool.id other q.isShared →
        p.tool.id = q.tool.id

variable {payload : Payload} {s : Snapshot}

theorem perm_map_entry_walk (nodup : (activeIds s).Nodup) :
    ((build s).walk.map Tree.entry).Perm (build s).entries := by
  have rooted := rooted_build nodup
  have ids : ((build s).walk.map Tree.entry).map Entry.id = (build s).walk.map Tree.id :=
    List.map_map
  have distinct : ((build s).walk.map Tree.entry).Nodup :=
    List.Nodup.of_map Entry.id (ids ▸ rooted.reaches.nodup_grow)
  refine (List.perm_ext_iff_of_nodup distinct (List.Nodup.of_map Entry.id rooted.nodup)).mpr ?_
  intro e
  constructor
  · intro member
    obtain ⟨t, ht, rfl⟩ := List.mem_map.mp member
    exact (rooted.reaches.grow_spec t ht).1
  · intro member
    obtain ⟨t, ht, same⟩ := rooted.exists_mem_grow member
    exact List.mem_map.mpr ⟨t, ht, same⟩

theorem perm_instances (nodup : (activeIds s).Nodup) :
    (instances (build s)).Perm ((activeIds s).flatMap (instancesIn (build s).placements)) := by
  have walk : instances (build s) = ((build s).walk.map Tree.entry).flatMap Entry.tools :=
    (List.flatMap_map ..).symm
  have entries : (build s).entries.flatMap Entry.tools =
      (activeIds s).flatMap (instancesIn (build s).placements) := by
    rw [activeIds, List.flatMap_map]
    exact List.flatMap_map ..
  rw [walk, ← entries]
  exact (perm_map_entry_walk nodup).flatMap_right Entry.tools

theorem mem_instances (nodup : (activeIds s).Nodup) {i : ToolInstance} :
    i ∈ instances (build s) ↔
      ∃ p ∈ (build s).placements, ∃ parent ∈ p.parents, i = p.instanceIn parent := by
  rw [(perm_instances nodup).mem_iff, List.mem_flatMap]
  constructor
  · rintro ⟨id, -, member⟩
    obtain ⟨p, inside, rfl⟩ := List.mem_map.mp member
    obtain ⟨placed, parent⟩ := List.mem_filter.mp inside
    exact ⟨p, placed, id, List.contains_iff_mem.mp parent, rfl⟩
  · rintro ⟨p, placed, parent, inside, rfl⟩
    refine ⟨parent, mem_activeIds_of_mem_parents placed inside, ?_⟩
    refine List.mem_map.mpr ⟨p, List.mem_filter.mpr ⟨placed, ?_⟩, rfl⟩
    exact List.contains_iff_mem.mpr inside

theorem nodup_instances (accepted : Snapshot.ofPayload payload = .ok s) :
    ((instances (build s)).map (fun i => (i.tool.id, i.parentId))).Nodup := by
  have nodup := nodup_activeIds accepted
  refine ((perm_instances nodup).map _).nodup_iff.mpr ?_
  -- In one capability the tools differ; in two the capabilities do.
  rw [List.map_flatMap, List.nodup_flatMap]
  have places : ∀ id, (instancesIn (build s).placements id).map (fun i => (i.tool.id, i.parentId))
      = (((build s).placements.filter (fun p => p.parents.contains id)).map
          (fun p => p.tool.id)).map (·, id) := by
    intro id
    rw [instancesIn, List.map_map, List.map_map]
    rfl
  constructor
  · intro id _
    rw [places]
    refine List.Nodup.map (fun _ _ same => congrArg Prod.fst same) ?_
    exact (nodup_map_toolId accepted).sublist (List.filter_sublist.map _)
  · refine nodup.imp ?_
    intro id id' apart pair here there
    simp only [places] at here there
    obtain ⟨_, -, rfl⟩ := List.mem_map.mp here
    obtain ⟨_, -, same⟩ := List.mem_map.mp there
    exact apart (congrArg Prod.snd same).symm

section Ids

variable {p q : Placement} {parent other : String}

theorem id_instanceIn_of_shared (shared : p.isShared) (parent : String) :
    (p.instanceIn parent).id = instanceId p.tool.id parent true := by
  rw [Placement.instanceIn, shared]

theorem id_instanceIn_of_single (single : ¬ p.isShared) (parent : String) :
    (p.instanceIn parent).id = p.tool.id := by
  rw [Placement.instanceIn, Bool.eq_false_iff.mpr single]
  rfl

private theorem eq_of_mem_parents_of_single (single : ¬ p.isShared) (inside : parent ∈ p.parents)
    (inside' : other ∈ p.parents) : parent = other := by
  have short : p.parents.length ≤ 1 := by simpa [Placement.isShared] using single
  match parents : p.parents with
  | [] => simp [parents] at inside
  | [_] =>
    rw [parents, List.mem_singleton] at inside inside'
    rw [inside, inside']
  | _ :: _ :: _ => simp [parents] at short

private theorem instanceIn_eq_of_shared (clear : Unambiguous s)
    (accepted : Snapshot.ofPayload payload = .ok s) (placed : p ∈ (build s).placements)
    (shared : p.isShared) (inside : parent ∈ p.parents) (placed' : q ∈ (build s).placements)
    (inside' : other ∈ q.parents) (same : (p.instanceIn parent).id = (q.instanceIn other).id) :
    p.instanceIn parent = q.instanceIn other := by
  have tools := clear.tool p placed shared parent inside q placed' other inside'
    ((id_instanceIn_of_shared shared parent).symm.trans same)
  obtain rfl := eq_of_toolId_eq accepted placed placed' tools
  rw [id_instanceIn_of_shared shared, id_instanceIn_of_shared shared] at same
  rw [instanceId_right_inj same]

private theorem instanceIn_eq_of_id_eq (clear : Unambiguous s)
    (accepted : Snapshot.ofPayload payload = .ok s) (placed : p ∈ (build s).placements)
    (inside : parent ∈ p.parents) (placed' : q ∈ (build s).placements)
    (inside' : other ∈ q.parents) (same : (p.instanceIn parent).id = (q.instanceIn other).id) :
    p.instanceIn parent = q.instanceIn other := by
  by_cases first : p.isShared
  · exact instanceIn_eq_of_shared clear accepted placed first inside placed' inside' same
  · by_cases second : q.isShared
    · exact (instanceIn_eq_of_shared clear accepted placed' second inside' placed inside
        same.symm).symm
    · -- Both ids are those of tools, and a tool that is not shared has one instance.
      rw [id_instanceIn_of_single first, id_instanceIn_of_single second] at same
      obtain rfl := eq_of_toolId_eq accepted placed placed' same
      rw [eq_of_mem_parents_of_single first inside inside']

end Ids

/-- The ids in a tree are distinct exactly if the instances of shared tools are unambiguous. -/
theorem nodup_treeIds_iff (accepted : Snapshot.ofPayload payload = .ok s) :
    (treeIds s).Nodup ↔ Unambiguous s := by
  have nodup := nodup_activeIds accepted
  rw [treeIds, List.nodup_append',
    List.nodup_map_iff_inj_on (List.Nodup.of_map _ (nodup_instances accepted))]
  constructor
  · rintro ⟨-, injective, apart⟩
    have member : ∀ p ∈ (build s).placements, ∀ parent ∈ p.parents,
        p.instanceIn parent ∈ instances (build s) :=
      fun p placed parent inside => (mem_instances nodup).mpr ⟨p, placed, parent, inside, rfl⟩
    constructor
    · intro p placed shared parent inside active
      refine apart active (List.mem_map.mpr ⟨_, member p placed parent inside, ?_⟩)
      exact id_instanceIn_of_shared shared parent
    · intro p placed shared parent inside q placed' other inside' same
      rw [← id_instanceIn_of_shared shared] at same
      have instances := injective _ (member p placed parent inside) _
        (member q placed' other inside') same
      exact congrArg (fun i => i.tool.id) instances
  · intro clear
    refine ⟨nodup, ?_, ?_⟩
    · intro i first j second same
      obtain ⟨p, placed, parent, inside, rfl⟩ := (mem_instances nodup).mp first
      obtain ⟨q, placed', other, inside', rfl⟩ := (mem_instances nodup).mp second
      exact instanceIn_eq_of_id_eq clear accepted placed inside placed' inside' same
    · intro id active member
      obtain ⟨i, found, rfl⟩ := List.mem_map.mp member
      obtain ⟨p, placed, parent, inside, rfl⟩ := (mem_instances nodup).mp found
      by_cases shared : p.isShared
      · rw [id_instanceIn_of_shared shared] at active
        exact clear.capability p placed shared parent inside active
      · rw [id_instanceIn_of_single shared] at active
        exact toolId_not_mem_activeIds accepted placed active

/-- The ids in a tree are distinct if those of shared tools are sealed and no other one holds a
separator. -/
theorem unambiguous_of_sealed
    (shared : ∀ p ∈ (build s).placements, p.isShared → Sealed p.tool.id)
    (single : ∀ p ∈ (build s).placements, ¬ p.isShared → ¬ Separated p.tool.id)
    (capabilities : ∀ id ∈ activeIds s, ¬ Separated id) : Unambiguous s := by
  constructor
  · intro p _ _ parent _ active
    exact capabilities _ active (separated_instanceId _ _)
  · intro p placed sharedP parent _ q placed' other _ same
    by_cases sharedQ : q.isShared
    · rw [sharedQ] at same
      have fronts := congrArg (fun id => Neighborhood.toolPart id.toList) same
      simp only [toolPart_instanceId, Option.some.injEq, String.toList_inj] at fronts
      rwa [front_eq_iff.mpr (shared p placed sharedP),
        front_eq_iff.mpr (shared q placed' sharedQ)] at fronts
    · rw [Bool.eq_false_iff.mpr sharedQ] at same
      refine (single q placed' sharedQ ?_).elim
      have whole : instanceId q.tool.id other false = q.tool.id := rfl
      rw [← whole, ← same]
      exact separated_instanceId _ _

def sharedToolPayload (toolId : String) : Payload :=
  .record [
    ("nodes", .list [
      .record [("id", .text "c"), ("type", .text "capability"), ("usage_count", .int 1)],
      .record [("id", .text "d"), ("type", .text "capability"), ("usage_count", .int 1)],
      .record [("id", .text toolId), ("type", .text "tool")]]),
    ("edges", .list (["c", "d"].map (fun source =>
      .record [("source", .text source), ("target", .text toolId),
        ("edge_type", .text "contains")])))]

end CapabilityAtlas.Hierarchy
