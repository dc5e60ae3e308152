import CapabilityAtlas.Proofs.Record.Legible
import CapabilityAtlas.Proofs.Record.Validation

set_option autoImplicit false
set_option relaxedAutoImplicit false

/-!
Reading a snapshot. All entries are validated before any is built, so a fault that is no rejection
can arise in two ways: validation comes to a type that cannot be compared or written before it comes
to an entry that it rejects, or all entries are valid and an attribute that is read cannot be
converted. Nodes whose id an earlier node has are not read.
-/

namespace CapabilityAtlas.Snapshot

variable {entry : Payload}

def recordLegible (record : NodeKind × Fields) : Prop :=
  match record.1 with
  | .tool => Tool.Legible record.2
  | .capability => Capability.Legible record.2

/-- What reading the node and edge entries needs beyond valid entries. -/
structure Legible (nodes edges : List Payload) : Prop where
  types : EachAfter (fun before entry => (∀ e ∈ before, IsNode e) → ∀ fields,
    unwrapped entry = some fields → isName (fields.get "id") →
      isComparable (fields.get "type")) nodes
  ids : (∀ e ∈ nodes, IsNode e) → (∀ e ∈ edges, IsEdge e) →
    ∀ record ∈ nodes.filterMap nodeRecord?, (record.2.get "id").isWritable
  records : (∀ e ∈ nodes, IsNode e) → (∀ e ∈ edges, IsEdge e) →
    EachAfter (fun before record =>
      (∀ earlier ∈ before, recordId earlier.2 ≠ recordId record.2) → recordLegible record)
      (nodes.filterMap nodeRecord?)
  links : (∀ e ∈ nodes, IsNode e) → (∀ e ∈ edges, IsEdge e) →
    ∀ fields ∈ edges.filterMap unwrapped, Edge.Legible fields

/-- Whether a record is read after some other ones and with some ids seen before. -/
def Kept (seen : List String) (before : List (NodeKind × Fields)) (record : NodeKind × Fields) :
    Prop :=
  ∀ id, recordId record.2 = .ok id → id ∉ seen ∧ ∀ earlier ∈ before, recordId earlier.2 ≠ .ok id

private theorem kept_cons_iff {seen : List String} {before : List (NodeKind × Fields)}
    {head record : NodeKind × Fields} {id : String} (spelled : recordId head.2 = .ok id) :
    Kept seen (head :: before) record ↔ Kept (id :: seen) before record := by
  refine forall_congr' fun other => imp_congr_right fun _ => ?_
  rw [List.forall_mem_cons, List.mem_cons, not_or, spelled, and_left_comm, and_assoc]
  simp [eq_comm]

private theorem kept_cons_seen_iff {seen : List String} {before : List (NodeKind × Fields)}
    {record : NodeKind × Fields} {id : String} (known : id ∈ seen) :
    Kept (id :: seen) before record ↔ Kept seen before record := by
  have same : ∀ other, other ∈ id :: seen ↔ other ∈ seen := by
    intro other
    rw [List.mem_cons]
    exact or_iff_right_of_imp fun equal => equal ▸ known
  simp only [Kept, same]

private theorem kept_empty_iff {seen : List String} {record : NodeKind × Fields} {id : String}
    (spelled : recordId record.2 = .ok id) : Kept seen [] record ↔ id ∉ seen := by
  constructor
  · exact fun kept => (kept id spelled).1
  · intro fresh other same
    obtain rfl := Except.ok.inj (spelled.symm.trans same)
    exact ⟨fresh, by simp⟩

private theorem hinges_buildNode (seen : List String) (kind : NodeKind) {fields : Fields}
    {value : Payload} {rest : List (NodeKind × Fields)} {later : List String → Prop}
    (present : fields.get? "id" = some value)
    (others : ∀ seen, HingesOn (buildNodes seen rest) (later seen))
    (again : ∀ id ∈ seen, later (id :: seen) ↔ later seen) (id : String) :
    HingesOn (if seen.contains id then buildNodes seen rest else
      match kind with
      | .tool => Tool.ofFields fields >>= fun tool =>
        buildNodes (id :: seen) rest >>= fun made => .ok (tool :: made.1, made.2)
      | .capability => Capability.ofFields fields >>= fun capability =>
        buildNodes (id :: seen) rest >>= fun made => .ok (made.1, capability :: made.2))
      ((id ∉ seen → recordLegible (kind, fields)) ∧ later (id :: seen)) := by
  -- A node that is skipped puts no new id among the seen ones.
  by_cases known : id ∈ seen
  · rw [if_pos (List.contains_iff_mem.mpr known)]
    refine (others seen).congr ?_
    rw [and_iff_right (fun fresh => absurd known fresh), again id known]
  · rw [if_neg (fun h => known (List.contains_iff_mem.mp h))]
    cases kind with
    | tool =>
      refine ((Tool.hinges_ofFields present).andThen fun tool => (others _).map).congr ?_
      simp [known, recordLegible]
    | capability =>
      refine ((Capability.hinges_ofFields present).andThen fun capability =>
        (others _).map).congr ?_
      simp [known, recordLegible]

private theorem hinges_buildNodes {seen : List String} {records : List (NodeKind × Fields)}
    (named : ∀ record ∈ records, ∃ id, record.2.get? "id" = some id) :
    HingesOn (buildNodes seen records) ((∀ record ∈ records, (record.2.get "id").isWritable) ∧
      EachAfter (fun before record => Kept seen before record → recordLegible record) records) := by
  induction records generalizing seen with
  | nil => exact (HingesOn.ok _).congr (iff_of_true trivial ⟨by simp, eachAfter_nil⟩)
  | cons record rest ih =>
    obtain ⟨kind, fields⟩ := record
    obtain ⟨⟨value, present⟩, others⟩ := List.forall_mem_cons.mp named
    clear named
    change fields.get? "id" = some value at present
    have steps := (Payload.hinges_spelled value).bind fun id _ =>
      hinges_buildNode seen kind present (fun _ => ih others)
        (fun _ known => by simp only [kept_cons_seen_iff known]) id
    rw [buildNodes, Edge.required_eq_ok present]
    refine HingesOn.congr steps ?_
    rw [List.forall_mem_cons, eachAfter_cons_iff, and_assoc, Fields.get_of_get? present]
    refine and_congr_right fun writable => ?_
    obtain ⟨id, spelled⟩ := (Payload.hinges_spelled value).result_iff.mpr writable
    have mine : recordId (kind, fields).2 = .ok id := by
      rw [recordId, Edge.required_eq_ok present]
      exact spelled
    simp only [kept_cons_iff mine, kept_empty_iff mine, spelled, Except.ok.injEq, forall_eq']
    exact and_left_comm

private theorem named_of_nodeRecord? {record : NodeKind × Fields} (valid : IsNode entry)
    (found : nodeRecord? entry = some record) : ∃ id, record.2.get? "id" = some id := by
  obtain ⟨fields, inside, named, -⟩ := valid
  rw [nodeRecord?, inside, Option.bind_some] at found
  obtain ⟨kind, -, rfl⟩ := Option.map_eq_some_iff.mp found
  exact present_of_isName named

private theorem kept_nil_iff {before : List (NodeKind × Fields)} {record : NodeKind × Fields}
    (named : ∃ id, record.2.get? "id" = some id) (writable : (record.2.get "id").isWritable) :
    Kept [] before record ↔ ∀ earlier ∈ before, recordId earlier.2 ≠ recordId record.2 := by
  obtain ⟨value, present⟩ := named
  rw [Fields.get_of_get? present] at writable
  obtain ⟨id, spelled⟩ := (Payload.hinges_spelled value).result_iff.mpr writable
  have mine : recordId record.2 = .ok id := by
    rw [recordId, Edge.required_eq_ok present]
    exact spelled
  rw [mine]
  constructor
  · exact fun kept => (kept id mine).2
  · intro fresh other same
    obtain rfl := Except.ok.inj (mine.symm.trans same)
    exact ⟨List.not_mem_nil, fresh⟩

private theorem hinges_links {edges : List Payload} (valid : ∀ e ∈ edges, IsEdge e) :
    HingesOn ((edges.filterMap unwrapped).mapM Edge.ofFields)
      (∀ fields ∈ edges.filterMap unwrapped, Edge.Legible fields) := by
  refine HingesOn.mapM _ fun fields member => ?_
  obtain ⟨e, he, inside⟩ := List.mem_filterMap.mp member
  obtain ⟨own, same, starts, ends⟩ := valid e he
  obtain rfl := Option.some.inj (same.symm.trans inside)
  obtain ⟨source, starts⟩ := present_of_isName starts
  obtain ⟨target, ends⟩ := present_of_isName ends
  exact Edge.hinges_ofFields starts ends

private theorem named_of_valid {nodes : List Payload} (valid : ∀ e ∈ nodes, IsNode e) :
    ∀ record ∈ nodes.filterMap nodeRecord?, ∃ id, record.2.get? "id" = some id := by
  intro record member
  obtain ⟨e, he, found⟩ := List.mem_filterMap.mp member
  exact named_of_nodeRecord? (valid e he) found

/-- Building from valid entries. -/
theorem hinges_build {nodes edges : List Payload} (validNodes : ∀ e ∈ nodes, IsNode e)
    (validEdges : ∀ e ∈ edges, IsEdge e) :
    HingesOn (buildNodes [] (nodes.filterMap nodeRecord?) >>= fun made =>
      (edges.filterMap unwrapped).mapM Edge.ofFields >>= fun links =>
        .ok ({ tools := made.1, capabilities := made.2, edges := links } : Snapshot))
      (((∀ record ∈ nodes.filterMap nodeRecord?, (record.2.get "id").isWritable) ∧
        EachAfter (fun before record => Kept [] before record → recordLegible record)
          (nodes.filterMap nodeRecord?)) ∧
      ∀ fields ∈ edges.filterMap unwrapped, Edge.Legible fields) :=
  (hinges_buildNodes (named_of_valid validNodes)).andThen fun made =>
    (hinges_links validEdges).map (g := fun links =>
      ({ tools := made.1, capabilities := made.2, edges := links } : Snapshot))

theorem orderly_build_iff {nodes edges : List Payload} (validNodes : ∀ e ∈ nodes, IsNode e)
    (validEdges : ∀ e ∈ edges, IsEdge e) :
    Orderly (buildNodes [] (nodes.filterMap nodeRecord?) >>= fun made =>
      (edges.filterMap unwrapped).mapM Edge.ofFields >>= fun links =>
        .ok ({ tools := made.1, capabilities := made.2, edges := links } : Snapshot)) ↔
      ((∀ record ∈ nodes.filterMap nodeRecord?, (record.2.get "id").isWritable) ∧
        EachAfter (fun before record =>
          (∀ earlier ∈ before, recordId earlier.2 ≠ recordId record.2) → recordLegible record)
          (nodes.filterMap nodeRecord?)) ∧
      ∀ fields ∈ edges.filterMap unwrapped, Edge.Legible fields := by
  have named := named_of_valid validNodes
  rw [(hinges_build validNodes validEdges).orderly_iff]
  refine and_congr_left fun _ => and_congr_right fun writable => ?_
  constructor
  · intro each before record after split fresh
    have member : record ∈ nodes.filterMap nodeRecord? := by simp [split]
    refine each before record after split ?_
    exact (kept_nil_iff (named record member) (writable record member)).mpr fresh
  · intro each before record after split kept
    have member : record ∈ nodes.filterMap nodeRecord? := by simp [split]
    refine each before record after split ?_
    exact (kept_nil_iff (named record member) (writable record member)).mp kept

/-- Reading ends in a snapshot or a rejection exactly where the entries are legible. -/
theorem orderly_ofPayload_iff (payload : Payload) :
    Orderly (ofPayload payload) ↔ ∀ (fields : Fields) nodes edges, payload = .record fields →
      listed (fields.get "nodes") = some nodes → listed (fields.get "edges") = some edges →
        Legible nodes edges := by
  cases payload with
  | record own =>
    unfold ofPayload
    rw [orderly_bind_iff, and_iff_right (orderly_entries _ _)]
    constructor
    · rintro run fields nodes edges same nodesListed edgesListed
      obtain rfl := Payload.record.inj same
      have listedNodes := run nodes (entries_eq_ok_iff.mpr nodesListed)
      have listedEdges := (orderly_bind_iff.mp listedNodes).2 edges
        (entries_eq_ok_iff.mpr edgesListed)
      obtain ⟨types, validated⟩ := orderly_bind_iff.mp listedEdges
      have built : (∀ e ∈ nodes, IsNode e) → (∀ e ∈ edges, IsEdge e) → _ :=
        fun validNodes validEdges => by
          have nodesValid := validated _ (validNodes_eq_ok_iff.mpr ⟨validNodes, rfl⟩)
          have allValid := (orderly_bind_iff.mp nodesValid).2 _
            (validEdges_eq_ok_iff.mpr ⟨validEdges, rfl⟩)
          exact (orderly_build_iff validNodes validEdges).mp allValid
      exact ⟨orderly_validNodes_iff.mp types, fun n e => (built n e).1.1,
        fun n e => (built n e).1.2, fun n e => (built n e).2⟩
    · -- Each step is reached only where the ones before it gave results.
      intro legible nodes nodesListed
      rw [orderly_bind_iff, and_iff_right (orderly_entries _ _)]
      intro edges edgesListed
      have legible := legible own nodes edges rfl (entries_eq_ok_iff.mp nodesListed)
        (entries_eq_ok_iff.mp edgesListed)
      rw [orderly_bind_iff, orderly_validNodes_iff, and_iff_right legible.types]
      intro nodeRecords nodesValid
      obtain ⟨validNodes, rfl⟩ := validNodes_eq_ok_iff.mp nodesValid
      rw [orderly_bind_iff, and_iff_right (orderly_validEdges _ _)]
      intro edgeRecords edgesValid
      obtain ⟨validEdges, rfl⟩ := validEdges_eq_ok_iff.mp edgesValid
      refine (orderly_build_iff validNodes validEdges).mpr ⟨⟨?_, ?_⟩, ?_⟩
      · exact legible.ids validNodes validEdges
      · exact legible.records validNodes validEdges
      · exact legible.links validNodes validEdges
  | null | bool | int | float | text | list | stamp =>
    refine iff_of_true (orderly_rejected _ _) ?_
    rintro fields nodes edges same
    simp at same

/-- Attributes of a lone node that end in a fault without a rejection: a type that is a list, a
number beyond the largest binary one, parents that are a number, a time that its offset carries out
of the calendar, and a name of too many digits. -/
theorem not_orderly_ofPayload :
    let lone (attributes : Fields) : Payload :=
      .record [("nodes", .list [.record (("id", .text "t") :: attributes)])]
    ¬ Orderly (ofPayload (lone [("type", .list [])])) ∧
    ¬ Orderly (ofPayload (lone [("type", .text "tool"), ("pagerank", .int (Nat.pow 10 400))])) ∧
    ¬ Orderly (ofPayload (lone [("type", .text "tool"), ("parents", .int 5)])) ∧
    ¬ Orderly (ofPayload (lone [("type", .text "tool"),
      ("last_used", .text "0001-01-01T00:00:00+01:00")])) ∧
    ¬ Orderly (ofPayload (lone [("type", .text "tool"), ("name", .int (Nat.pow 10 4300))])) := by
  decide +kernel

end CapabilityAtlas.Snapshot
