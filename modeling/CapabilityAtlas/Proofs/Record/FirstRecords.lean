import CapabilityAtlas.Proofs.Record.Rearrangement

set_option autoImplicit false
set_option relaxedAutoImplicit false

/-!
The first record of each id. A snapshot holds the tools and the capabilities that these records
describe, in their order, and is the same when all other node entries are deleted.
-/

namespace CapabilityAtlas

section FirstsBy

variable {α β γ : Type} [DecidableEq γ]

/-- The members of a list whose key no member before them has. -/
def firstsBy (key : α → γ) (xs : List α) : List α :=
  xs.eraseDupsBy (fun later earlier => key later = key earlier)

variable {key : α → γ} {x : α} {xs : List α}

private theorem firstsBy_cons (key : α → γ) (x : α) (xs : List α) :
    firstsBy key (x :: xs) = x :: firstsBy key (xs.filter (fun y => key y ≠ key x)) := by
  rw [firstsBy, List.eraseDupsBy_cons]
  simp [firstsBy]

/-- Induction along the members that are kept: each time the others with the same key fall away. -/
private theorem firstsBy_induction {motive : List α → Prop} (key : α → γ) (nil : motive [])
    (cons : ∀ x xs, motive (xs.filter (fun y => key y ≠ key x)) → motive (x :: xs))
    (xs : List α) : motive xs := by
  match xs with
  | [] => exact nil
  | x :: xs => exact cons x xs (firstsBy_induction key nil cons _)
termination_by xs.length
decreasing_by exact Nat.lt_succ_of_le (List.length_filter_le _ xs)

private theorem mem_firstsBy_iff :
    x ∈ firstsBy key xs ↔ xs.find? (fun y => key y = key x) = some x := by
  induction xs using firstsBy_induction key with
  | nil => simp [firstsBy]
  | cons y xs ih =>
    rw [firstsBy_cons, List.mem_cons, ih]
    by_cases same : key y = key x
    · have gone : (xs.filter (fun z => key z ≠ key y)).find? (fun z => key z = key x) = none := by
        rw [List.find?_eq_none]
        intro z member
        simpa [same] using (List.mem_filter.mp member).2
      rw [List.find?_cons_of_pos (by simpa using same), gone]
      simp [eq_comm]
    · have apart : x ≠ y := fun equal => same (congrArg key equal.symm)
      have others : (xs.filter (fun z => key z ≠ key y)).find? (fun z => key z = key x) =
          xs.find? (fun z => key z = key x) := by
        rw [List.find?_filter]
        congr 1
        funext z
        by_cases here : key z = key x
        · simp [here, Ne.symm same]
        · simp [here]
      rw [List.find?_cons_of_neg (by simpa using same), others]
      simp [apart]

private theorem mem_of_mem_firstsBy (member : x ∈ firstsBy key xs) : x ∈ xs :=
  List.mem_of_find?_eq_some (mem_firstsBy_iff.mp member)

private theorem sublist_firstsBy (key : α → γ) (xs : List α) : (firstsBy key xs).Sublist xs := by
  induction xs using firstsBy_induction key with
  | nil => exact .slnil
  | cons x xs ih =>
    rw [firstsBy_cons]
    exact (ih.trans List.filter_sublist).cons_cons x

private theorem nodup_map_firstsBy (key : α → γ) (xs : List α) :
    ((firstsBy key xs).map key).Nodup := by
  induction xs using firstsBy_induction key with
  | nil => exact List.nodup_nil
  | cons x xs ih =>
    rw [firstsBy_cons, List.map_cons, List.nodup_cons]
    refine ⟨fun member => ?_, ih⟩
    obtain ⟨y, kept, same⟩ := List.mem_map.mp member
    simpa [same] using mem_of_mem_firstsBy kept

/-- What some members stand for can be found before or after the first ones are taken. -/
private theorem filterMap_firstsBy (f : α → Option β) (key : β → γ) (xs : List α) :
    (firstsBy (fun x => (f x).map key) (xs.filter (fun x => (f x).isSome))).filterMap f =
      firstsBy key (xs.filterMap f) := by
  induction xs using firstsBy_induction (fun x => (f x).map key) with
  | nil => rfl
  | cons x xs ih =>
    cases found : f x with
    | none =>
      have visible : xs.filter (fun y => decide ((f y).map key ≠ (f x).map key)) =
          xs.filter (fun y => (f y).isSome) := by
        refine List.filter_congr fun y _ => ?_
        rw [found]
        cases f y <;> simp
      have read : (xs.filter (fun y => (f y).isSome)).filterMap f = xs.filterMap f := by
        rw [List.filterMap_filter]
        refine List.filterMap_congr fun y _ => ?_
        cases f y <;> rfl
      rw [visible, read, List.filter_filter] at ih
      rw [List.filter_cons_of_neg (by simp [found]), List.filterMap_cons_none found, ← ih]
      simp only [Bool.and_self]
    | some b =>
      have others : (xs.filter (fun y => decide ((f y).map key ≠ (f x).map key))).filterMap f =
          (xs.filterMap f).filter (fun c => key c ≠ key b) := by
        rw [found, List.filterMap_filter, List.filter_filterMap]
        refine List.filterMap_congr fun y _ => ?_
        cases read : f y with
        | none => simp
        | some c =>
          by_cases same : key c = key b
          · simp [same, Option.filter]
          · simp [same, Option.filter]
      rw [List.filter_cons_of_pos (by simp [found]), firstsBy_cons, List.filterMap_cons_some found,
        List.filterMap_cons_some found, firstsBy_cons, List.filter_comm, ih, others]

end FirstsBy

namespace Snapshot

open Fault (ok_of_bind)

def firstRecords (records : List (NodeKind × Fields)) : List (NodeKind × Fields) :=
  firstsBy (fun record => recordId record.2) records

/-- The node entries that are not left out and whose id no such entry before them has. -/
def firstEntries (nodes : List Payload) : List Payload :=
  firstsBy (fun entry => (nodeRecord? entry).map (fun record => recordId record.2))
    (nodes.filter (fun entry => (nodeRecord? entry).isSome))

/-- The first record with an id, if there is one. -/
def recordOf? (records : List (NodeKind × Fields)) (id : String) : Option (NodeKind × Fields) :=
  records.find? (fun record => recordId record.2 = .ok id)

def isFresh (seen : List String) (record : NodeKind × Fields) : Bool :=
  seen.all (fun id => recordId record.2 ≠ .ok id)

/-- What a snapshot holds for one id: the tool or the capability that a record describes, or nothing
if there is no record. -/
def HoldsFor (s : Snapshot) (id : String) : Option (NodeKind × Fields) → Prop
  | some (.tool, fields) => ∃ t ∈ s.tools, t.id = id ∧ Tool.ofFields fields = .ok t
  | some (.capability, fields) =>
    ∃ c ∈ s.capabilities, c.id = id ∧ Capability.ofFields fields = .ok c
  | none => id ∉ s.nodeIds

/-- A snapshot that holds, for every id, what the first record with that id describes, in the order
of these records. -/
structure HoldsFirst (records : List (NodeKind × Fields)) (s : Snapshot) : Prop where
  nodup : s.nodeIds.Nodup
  inOrder : (firstRecords records).Sublist records
  tools : s.tools = (firstRecords records).filterMap toolOf?
  capabilities : s.capabilities = (firstRecords records).filterMap capabilityOf?
  held : ∀ id, HoldsFor s id (recordOf? records id)

variable {records : List (NodeKind × Fields)} {seen : List String}
  {tools : List Tool} {capabilities : List Capability}

private theorem firstRecords_filter_cons (kind : NodeKind) {fields : Fields} {id : String}
    (unseen : id ∉ seen) (mine : recordId fields = .ok id) :
    firstRecords (((kind, fields) :: records).filter (isFresh seen)) =
      (kind, fields) :: firstRecords (records.filter (isFresh (id :: seen))) := by
  have fresh : isFresh seen (kind, fields) = true := by
    refine List.all_eq_true.mpr fun other before => ?_
    have apart : id ≠ other := by
      rintro rfl
      exact unseen before
    simp [mine, apart]
  have others : (records.filter (isFresh seen)).filter
      (fun record => recordId record.2 ≠ recordId fields) =
      records.filter (isFresh (id :: seen)) := by
    rw [List.filter_filter]
    refine List.filter_congr fun record _ => ?_
    rw [mine, isFresh, isFresh, List.all_cons]
  rw [List.filter_cons_of_pos fresh, firstRecords, firstsBy_cons, others]
  rfl

/-- What is skipped is not among the first records. -/
theorem Built.restrict_firstRecords (built : Built seen records tools capabilities) :
    Built seen (firstRecords (records.filter (isFresh seen))) tools capabilities := by
  induction built with
  | done => exact .done
  | @skip seen kind fields _ _ _ id mine known _ ih =>
    have stale : isFresh seen (kind, fields) = false :=
      List.all_eq_false.mpr ⟨id, known, by simp [mine]⟩
    rw [List.filter_cons_of_neg (by simp [stale])]
    exact ih
  | tool unseen made _ ih =>
    rw [firstRecords_filter_cons _ unseen (recordId_of_tool made)]
    exact .tool unseen made ih
  | capability unseen made _ ih =>
    rw [firstRecords_filter_cons _ unseen (recordId_of_capability made)]
    exact .capability unseen made ih

private theorem Built.restrict_firstRecords_of_unseen
    (built : Built [] records tools capabilities) :
    Built [] (firstRecords records) tools capabilities := by
  have all : records.filter (isFresh []) = records := List.filter_eq_self.mpr fun _ _ => rfl
  have first := built.restrict_firstRecords
  rwa [all] at first

private theorem toolOf?_eq_some_iff {record : NodeKind × Fields} {t : Tool} :
    toolOf? record = some t ↔ record.1 = .tool ∧ Tool.ofFields record.2 = .ok t := by
  obtain ⟨kind, fields⟩ := record
  cases kind with
  | tool => cases made : Tool.ofFields fields <;> simp [toolOf?, made, Except.toOption]
  | capability => simp [toolOf?]

private theorem capabilityOf?_eq_some_iff {record : NodeKind × Fields} {c : Capability} :
    capabilityOf? record = some c ↔
      record.1 = .capability ∧ Capability.ofFields record.2 = .ok c := by
  obtain ⟨kind, fields⟩ := record
  cases kind with
  | tool => simp [capabilityOf?]
  | capability =>
    cases made : Capability.ofFields fields <;> simp [capabilityOf?, made, Except.toOption]

private theorem exists_record_of_mem_nodeIds {s : Snapshot} {id : String}
    (tools : s.tools = (firstRecords records).filterMap toolOf?)
    (capabilities : s.capabilities = (firstRecords records).filterMap capabilityOf?)
    (member : id ∈ s.nodeIds) : ∃ record ∈ records, recordId record.2 = .ok id := by
  rcases List.mem_append.mp member with tool | capability
  · obtain ⟨t, held, rfl⟩ := List.mem_map.mp tool
    rw [tools] at held
    obtain ⟨record, first, read⟩ := List.mem_filterMap.mp held
    exact ⟨record, mem_of_mem_firstsBy first, recordId_of_tool (toolOf?_eq_some_iff.mp read).2⟩
  · obtain ⟨c, held, rfl⟩ := List.mem_map.mp capability
    rw [capabilities] at held
    obtain ⟨record, first, read⟩ := List.mem_filterMap.mp held
    exact ⟨record, mem_of_mem_firstsBy first,
      recordId_of_capability (capabilityOf?_eq_some_iff.mp read).2⟩

private theorem mem_firstRecords_of_recordOf? {id : String} {record : NodeKind × Fields}
    (found : recordOf? records id = some record) :
    record ∈ firstRecords records ∧ recordId record.2 = .ok id := by
  have spelled : recordId record.2 = .ok id := by simpa using List.find?_some found
  refine ⟨mem_firstsBy_iff.mpr ?_, spelled⟩
  rw [spelled]
  exact found

theorem Built.holdsFirst {s : Snapshot} (built : Built [] records s.tools s.capabilities) :
    HoldsFirst records s := by
  have distinct := nodup_map_firstsBy (fun record : NodeKind × Fields => recordId record.2) records
  obtain ⟨tools, capabilities, builds⟩ :=
    built.restrict_firstRecords_of_unseen.eq_filterMap distinct (by simp)
  refine ⟨built.fresh.1, sublist_firstsBy _ _, tools, capabilities, fun id => ?_⟩
  cases found : recordOf? records id with
  | none =>
    intro member
    obtain ⟨record, present, spelled⟩ :=
      exists_record_of_mem_nodeIds tools capabilities member
    simpa [spelled] using List.find?_eq_none.mp found record present
  | some record =>
    obtain ⟨kept, spelled⟩ := mem_firstRecords_of_recordOf? found
    obtain ⟨kind, fields⟩ := record
    obtain ⟨-, made⟩ := builds _ kept
    cases kind with
    | tool =>
      obtain ⟨t, made⟩ := made
      refine ⟨t, ?_, Except.ok.inj ((recordId_of_tool made).symm.trans spelled), made⟩
      rw [tools]
      exact List.mem_filterMap.mpr ⟨_, kept, toolOf?_eq_some_iff.mpr ⟨rfl, made⟩⟩
    | capability =>
      obtain ⟨c, made⟩ := made
      refine ⟨c, ?_, Except.ok.inj ((recordId_of_capability made).symm.trans spelled), made⟩
      rw [capabilities]
      exact List.mem_filterMap.mpr ⟨_, kept, capabilityOf?_eq_some_iff.mpr ⟨rfl, made⟩⟩

private theorem listed_list (items : List Payload) : listed (.list items) = some items := by
  cases items <;> rfl

variable {payload : Payload} {s : Snapshot}

/-- An accepted snapshot holds for every id the tool or the capability that the first record with
that id describes, in the order of these records, and the same snapshot is read when all later
records and all entries that are left out are deleted. -/
theorem holdsFirst_of_accepted (accepted : ofPayload payload = .ok s) :
    ∃ (fields : Fields) (nodes edges : List Payload), payload = .record fields ∧
      listed (fields.get "nodes") = some nodes ∧ listed (fields.get "edges") = some edges ∧
      HoldsFirst (nodes.filterMap nodeRecord?) s ∧
      ∀ fields' : Fields, listed (fields'.get "nodes") = some (firstEntries nodes) →
        listed (fields'.get "edges") = some edges → ofPayload (.record fields') = .ok s := by
  cases payload with
  | record fields =>
    obtain ⟨nodes, entered, rest⟩ := ok_of_bind accepted
    obtain ⟨edges, entered', -⟩ := ok_of_bind rest
    have nodesListed := entries_eq_ok_iff.mp entered
    have edgesListed := entries_eq_ok_iff.mp entered'
    obtain ⟨valid, valid', built, read⟩ := built_of_ofPayload accepted nodesListed edgesListed
    refine ⟨fields, nodes, edges, rfl, nodesListed, edgesListed, built.holdsFirst, ?_⟩
    intro fields' nodesListed' edgesListed'
    have kept : ∀ e ∈ firstEntries nodes, IsNode e := fun e member =>
      valid e (List.mem_of_mem_filter (mem_of_mem_firstsBy member))
    have built' : Built [] ((firstEntries nodes).filterMap nodeRecord?) s.tools s.capabilities := by
      have first := built.restrict_firstRecords_of_unseen
      rwa [firstRecords, ← filterMap_firstsBy] at first
    exact ofPayload_eq_ok nodesListed' edgesListed' kept valid' built' read
  | _ => simp [ofPayload] at accepted

/-- An invocation, a capability with the number one for its id, a tool that repeats that id as a
text, and a tool of its own. -/
def repeatedNodes : List Payload := [
  .record [("id", .text "t"), ("type", .text "tool_invocation")],
  .record [("id", .int 1), ("type", .text "capability")],
  .record [("data", .record [("id", .text "1"), ("type", .text "tool")])],
  .record [("id", .text "t"), ("type", .text "tool")]]

theorem holdsFirst_of_accepted_of_repeated :
    ∃ s, ofPayload (.record [("nodes", .list repeatedNodes)]) = .ok s ∧
      s.tools.map Tool.id = ["t"] ∧ s.capabilities.map Capability.id = ["1"] ∧
      HoldsFirst (repeatedNodes.filterMap nodeRecord?) s ∧
      (firstEntries repeatedNodes).length = 2 ∧
      ofPayload (.record [("nodes", .list (firstEntries repeatedNodes))]) = .ok s := by
  have read : (ofPayload (.record [("nodes", .list repeatedNodes)])).toOption.map
      (fun s => (s.tools.map Tool.id, s.capabilities.map Capability.id)) = some (["t"], ["1"]) := by
    decide +kernel
  obtain ⟨s, made, ids⟩ := Option.map_eq_some_iff.mp read
  obtain ⟨tools, capabilities⟩ := Prod.mk.inj ids
  have accepted : ofPayload (.record [("nodes", .list repeatedNodes)]) = .ok s := by
    cases run : ofPayload (.record [("nodes", .list repeatedNodes)]) with
    | ok made' =>
      rw [run] at made
      exact congrArg Except.ok (Option.some.inj made)
    | error fault => simp [run, Except.toOption] at made
  obtain ⟨fields, nodes, edges, same, nodesListed, edgesListed, holds, fewer⟩ :=
    holdsFirst_of_accepted accepted
  obtain rfl := Payload.record.inj same
  obtain rfl : repeatedNodes = nodes := Option.some.inj nodesListed
  have noEdges : ∀ items : List Payload, Fields.get [("nodes", .list items)] "edges" = .null :=
    fun _ => rfl
  rw [noEdges] at edgesListed
  refine ⟨s, accepted, tools, capabilities, holds, by decide +kernel,
    fewer _ (listed_list _) ?_⟩
  rw [noEdges]
  exact edgesListed

end Snapshot

end CapabilityAtlas
