import CapabilityAtlas.Proofs.Record.Reading

set_option autoImplicit false
set_option relaxedAutoImplicit false

/-!
Rejections of a snapshot. Nodes are validated before edges, each in order, and nothing is built
before all are valid: the rejection names the first node that is invalid, or where there is none the
first such edge, and hangs on nothing but the few attributes that validation reads.
-/

namespace CapabilityAtlas.Snapshot

open Fault (ok_of_bind)

/-- What is wrong with a field that has to hold a text that is not blank, or a whole number, as
which a truth value counts. -/
def nameDefect? (field : String) (fields : Fields) : Option Defect :=
  match fields.get field with
  | .null => some (.missing field)
  | .text s => if Text.isBlankText s then some (.missing field) else none
  | .int _ | .bool _ => none
  | other => some (.notText field other.kindName)

/-- What is wrong with the type of a node, which is a text or missing. -/
def typeDefect? (fields : Fields) : Option Defect :=
  match fields.get "type" with
  | .text s =>
    if s ∈ ["tool", "capability", "tool_invocation"] then none
    else some (.unknownType (Payload.quotedText s))
  | _ => some (.unknownType "None")

def entryDefect? (checks : List (Fields → Option Defect)) (entry : Payload) : Option Defect :=
  match unwrapped entry with
  | none => some (.entryNotObject entry.kindName)
  | some fields => checks.findSome? (fun check => check fields)

def nodeDefect? : Payload → Option Defect := entryDefect? [nameDefect? "id", typeDefect?]

def edgeDefect? : Payload → Option Defect :=
  entryDefect? [nameDefect? "source", nameDefect? "target"]

def HasTextType (entry : Payload) : Prop :=
  ∀ fields, unwrapped entry = some fields →
    fields.get "type" = .null ∨ ∃ s, fields.get "type" = .text s

/-- Whether an index is the least one of an invalid entry. -/
def IsFirstInvalid (valid : Payload → Prop) (entries : List Payload) (i : Nat) : Prop :=
  (∃ e, entries[i]? = some e ∧ ¬ valid e) ∧ ∀ j < i, ∀ e, entries[j]? = some e → valid e

/-- Whether two entries have the same attributes under some names, or are no records of one kind. -/
def AgreeOn (names : List String) (entry entry' : Payload) : Prop :=
  match unwrapped entry, unwrapped entry' with
  | some fields, some fields' => ∀ name ∈ names, fields.get name = fields'.get name
  | none, none => entry.kindName = entry'.kindName
  | _, _ => False

/-- The place and the defect of the first invalid entry, where nodes come before edges. -/
inductive FirstDefect (nodes edges : List Payload) : Place → Defect → Prop
  | node {i : Nat} {defect : Defect} : IsFirstInvalid IsNode nodes i →
      nodes[i]?.bind nodeDefect? = some defect → FirstDefect nodes edges (.node i) defect
  | edge {j : Nat} {defect : Defect} : (∀ e ∈ nodes, IsNode e) → IsFirstInvalid IsEdge edges j →
      edges[j]?.bind edgeDefect? = some defect → FirstDefect nodes edges (.edge j) defect

variable {place : Place} {entry entry' : Payload} {fields : Fields} {index : Nat}

private def refuse (place : Place) : Option Defect → Except Fault Unit
  | none => .ok ()
  | some defect => .error (.rejected place defect)

private theorem attributes_eq (place : Place) (entry : Payload) : attributes place entry =
    match unwrapped entry with
    | some fields => .ok fields
    | none => .error (.rejected place (.entryNotObject entry.kindName)) := by
  cases entry with
  | record own =>
    simp only [attributes, unwrapped]
    cases Fields.get own "data" <;> rfl
  | null | bool | int | float | text | list | stamp => rfl

private theorem checkText_eq (place : Place) (fields : Fields) (field : String) :
    checkText place fields field = refuse place (nameDefect? field fields) := by
  unfold checkText nameDefect?
  cases fields.get field with
  | text s => by_cases blank : Text.isBlankText s <;> simp [refuse, blank]
  | null | bool | int | float | list | record | stamp => rfl

private theorem nameDefect?_eq_none_iff {field : String} :
    nameDefect? field fields = none ↔ isName (fields.get field) := by
  have passes : checkText .whole fields field = .ok () ↔ isName (fields.get field) :=
    checkText_eq_ok_iff
  rw [← passes, checkText_eq]
  cases nameDefect? field fields <;> simp [refuse]

private theorem typeDefect?_eq_none_iff :
    typeDefect? fields = none ↔ (kindOf (fields.get "type")).isSome := by
  unfold typeDefect?
  cases fields.get "type" with
  | text s =>
    by_cases tool : s = "tool"
    · simp [tool, kindOf]
    · by_cases capability : s = "capability"
      · simp [capability, kindOf]
      · by_cases invocation : s = "tool_invocation"
        · simp [invocation, kindOf]
        · simp [tool, capability, invocation, kindOf]
  | null | bool | int | float | list | record | stamp => simp [kindOf]

private theorem nodeKind_eq_error {defect : Defect}
    (typed : fields.get "type" = .null ∨ ∃ s, fields.get "type" = .text s)
    (wrong : typeDefect? fields = some defect) :
    nodeKind place fields = .error (.rejected place defect) := by
  have unknown : kindOf (fields.get "type") = none := by
    rw [← Option.not_isSome_iff_eq_none, ← typeDefect?_eq_none_iff, wrong]
    simp
  rw [nodeKind_eq, unknown]
  unfold typeDefect? at wrong
  rcases typed with missing | ⟨s, text⟩
  · rw [missing] at wrong ⊢
    obtain rfl := Option.some.inj wrong
    rfl
  · rw [text] at wrong ⊢
    obtain ⟨-, rfl⟩ := by simpa using wrong
    rfl

private theorem nodeDefect?_eq_none_iff : nodeDefect? entry = none ↔ IsNode entry := by
  unfold nodeDefect? entryDefect? IsNode
  cases unwrapped entry with
  | none => simp
  | some fields => simp [nameDefect?_eq_none_iff, typeDefect?_eq_none_iff]

instance (entry : Payload) : Decidable (IsNode entry) :=
  decidable_of_iff _ nodeDefect?_eq_none_iff

private theorem edgeDefect?_eq_none_iff : edgeDefect? entry = none ↔ IsEdge entry := by
  unfold edgeDefect? entryDefect? IsEdge
  cases unwrapped entry with
  | none => simp
  | some fields => simp [nameDefect?_eq_none_iff]

private theorem validNode_eq_error {defect : Defect} (typed : HasTextType entry)
    (wrong : nodeDefect? entry = some defect) :
    validNode index entry = .error (.rejected (.node index) defect) := by
  unfold nodeDefect? entryDefect? at wrong
  rw [validNode, attributes_eq]
  cases inside : unwrapped entry with
  | none =>
    rw [inside] at wrong
    obtain rfl := Option.some.inj wrong
    rfl
  | some fields =>
    rw [inside] at wrong
    change (checkText (.node index) fields "id" >>= fun _ => _) = _
    rw [checkText_eq]
    cases named : nameDefect? "id" fields with
    | some unnamed =>
      obtain rfl : unnamed = defect := by simpa [named] using wrong
      rfl
    | none =>
      have untyped : typeDefect? fields = some defect := by simpa [named] using wrong
      change (nodeKind (.node index) fields >>= fun _ => _) = _
      rw [nodeKind_eq_error (typed fields inside) untyped]
      rfl

private theorem validEdge_eq_error {defect : Defect} (wrong : edgeDefect? entry = some defect) :
    validEdge index entry = .error (.rejected (.edge index) defect) := by
  unfold edgeDefect? entryDefect? at wrong
  rw [validEdge, attributes_eq]
  cases inside : unwrapped entry with
  | none =>
    rw [inside] at wrong
    obtain rfl := Option.some.inj wrong
    rfl
  | some fields =>
    rw [inside] at wrong
    change (checkText (.edge index) fields "source" >>= fun _ => _) = _
    rw [checkText_eq]
    cases starts : nameDefect? "source" fields with
    | some unnamed =>
      obtain rfl : unnamed = defect := by simpa [starts] using wrong
      rfl
    | none =>
      have ends : nameDefect? "target" fields = some defect := by simpa [starts] using wrong
      change (checkText (.edge index) fields "target" >>= fun _ => _) = _
      rw [checkText_eq, ends]
      rfl

section First

variable {valid : Payload → Prop} {entries rest : List Payload} {i : Nat}

theorem isFirstInvalid_cons_iff : IsFirstInvalid valid (entry :: rest) i ↔
    i = 0 ∧ ¬ valid entry ∨ ∃ j, i = j + 1 ∧ valid entry ∧ IsFirstInvalid valid rest j := by
  cases i with
  | zero => simp [IsFirstInvalid]
  | succ i =>
    simp only [IsFirstInvalid, Nat.forall_lt_succ_left, List.getElem?_cons_succ,
      List.getElem?_cons_zero, Option.some.injEq, forall_eq', Nat.add_right_cancel_iff]
    constructor
    · rintro ⟨here, before, earlier⟩
      exact Or.inr ⟨i, rfl, before, here, earlier⟩
    · rintro (⟨absurd, -⟩ | ⟨j, rfl, before, here, earlier⟩)
      · omega
      · exact ⟨here, before, earlier⟩

private theorem exists_isFirstInvalid_iff :
    (∃ i, IsFirstInvalid valid entries i) ↔ ∃ e ∈ entries, ¬ valid e := by
  induction entries with
  | nil => simp [IsFirstInvalid]
  | cons entry rest ih =>
    simp only [isFirstInvalid_cons_iff, List.exists_mem_cons_iff, ← ih]
    by_cases here : valid entry
    · simp [here]
    · simp [here]

private theorem IsFirstInvalid.not_forall (first : IsFirstInvalid valid entries i) :
    ¬ ∀ e ∈ entries, valid e := by
  intro all
  obtain ⟨⟨e, here, invalid⟩, -⟩ := first
  exact invalid (all e (List.mem_of_getElem? here))

/-- A pass over some entries that ends at the first invalid one fails there, with its defect. -/
private theorem eq_error_iff_of_pass {β : Type} (run : Nat → List Payload → Except Fault β)
    (place : Nat → Place) (valid : Payload → Prop) (defect? : Payload → Option Defect)
    (ends : ∀ k fault, run k [] ≠ .error fault)
    (stop : ∀ k rest, ∀ e ∈ entries, ¬ valid e → ∃ defect, defect? e = some defect ∧
      run k (e :: rest) = .error (.rejected (place k) defect))
    (next : ∀ k rest fault, ∀ e ∈ entries, valid e →
      (run k (e :: rest) = .error fault ↔ run (k + 1) rest = .error fault))
    (start : Nat) (fault : Fault) :
    run start entries = .error fault ↔ ∃ i defect, IsFirstInvalid valid entries i ∧
      entries[i]?.bind defect? = some defect ∧ fault = .rejected (place (start + i)) defect := by
  induction entries generalizing start with
  | nil => simp [ends, IsFirstInvalid]
  | cons entry rest ih =>
    have later := ih (fun k r e he => stop k r e (List.mem_cons_of_mem _ he))
      (fun k r f e he => next k r f e (List.mem_cons_of_mem _ he)) (start + 1)
    by_cases here : valid entry
    · rw [next start rest fault entry List.mem_cons_self here, later]
      simp only [isFirstInvalid_cons_iff, here, not_true_eq_false, and_false, true_and, false_or]
      constructor
      · rintro ⟨i, defect, first, wrong, rfl⟩
        exact ⟨i + 1, defect, ⟨i, rfl, first⟩, wrong, by rw [Nat.add_right_comm, Nat.add_assoc]⟩
      · rintro ⟨_, defect, ⟨i, rfl, first⟩, wrong, rfl⟩
        exact ⟨i, defect, first, wrong, by rw [Nat.add_right_comm, Nat.add_assoc]⟩
    · obtain ⟨defect, wrong, run⟩ := stop start rest entry List.mem_cons_self here
      rw [run, Except.error.injEq]
      simp only [isFirstInvalid_cons_iff, here, not_false_eq_true, and_true, false_and, and_false,
        exists_false, or_false]
      constructor
      · rintro rfl
        exact ⟨0, defect, rfl, wrong, rfl⟩
      · rintro ⟨_, defect', rfl, wrong', rfl⟩
        obtain rfl := Option.some.inj (wrong.symm.trans wrong')
        rfl

end First

private theorem validNodes_eq_error_iff {nodes : List Payload} (typed : ∀ e ∈ nodes, HasTextType e)
    {fault : Fault} : validNodes 0 nodes = .error fault ↔ ∃ i defect,
      IsFirstInvalid IsNode nodes i ∧ nodes[i]?.bind nodeDefect? = some defect ∧
        fault = .rejected (.node i) defect := by
  have nil : ∀ k fault, validNodes k [] ≠ .error fault := by simp [validNodes]
  rw [eq_error_iff_of_pass validNodes .node IsNode nodeDefect? nil ?_ ?_ 0 fault]
  · simp only [Nat.zero_add]
  · intro k rest e member invalid
    obtain ⟨defect, wrong⟩ :=
      Option.ne_none_iff_exists'.mp (nodeDefect?_eq_none_iff.not.mpr invalid)
    refine ⟨defect, wrong, ?_⟩
    rw [validNodes, validNode_eq_error (typed e member) wrong]
    rfl
  · intro k rest fault e _ valid
    have one : validNode k e = .ok (nodeRecord? e) := validNode_eq_ok_iff.mpr ⟨valid, rfl⟩
    rw [validNodes, one]
    cases validNodes (k + 1) rest <;> simp [bind, Except.bind, pure, Except.pure]

private theorem validEdges_eq_error_iff {edges : List Payload} {fault : Fault} :
    validEdges 0 edges = .error fault ↔ ∃ j defect,
      IsFirstInvalid IsEdge edges j ∧ edges[j]?.bind edgeDefect? = some defect ∧
        fault = .rejected (.edge j) defect := by
  have nil : ∀ k fault, validEdges k [] ≠ .error fault := by simp [validEdges]
  rw [eq_error_iff_of_pass validEdges .edge IsEdge edgeDefect? nil ?_ ?_ 0 fault]
  · simp only [Nat.zero_add]
  · intro k rest e _ invalid
    obtain ⟨defect, wrong⟩ :=
      Option.ne_none_iff_exists'.mp (edgeDefect?_eq_none_iff.not.mpr invalid)
    refine ⟨defect, wrong, ?_⟩
    rw [validEdges, validEdge_eq_error wrong]
    rfl
  · intro k rest fault e _ valid
    obtain ⟨fields, inside, -⟩ := id valid
    have one : validEdge k e = .ok fields := validEdge_eq_ok_iff.mpr ⟨valid, inside⟩
    rw [validEdges, one]
    cases validEdges (k + 1) rest <;> simp [bind, Except.bind, pure, Except.pure]

variable {fields' : Fields} {nodes nodes' edges edges' : List Payload} {defect : Defect}

/-- A snapshot is rejected for its first invalid entry, and for nothing else. -/
theorem ofPayload_eq_rejected_iff (nodesListed : listed (fields.get "nodes") = some nodes)
    (edgesListed : listed (fields.get "edges") = some edges)
    (typed : ∀ e ∈ nodes, HasTextType e) :
    ofPayload (.record fields) = .error (.rejected place defect) ↔
      FirstDefect nodes edges place defect := by
  rw [ofPayload, entries_eq_ok_iff.mpr nodesListed]
  change (entries .edges (fields.get "edges") >>= fun _ => _) = _ ↔ _
  rw [entries_eq_ok_iff.mpr edgesListed]
  change (validNodes 0 nodes >>= fun _ => _) = _ ↔ _
  cases nodesRun : validNodes 0 nodes with
  | error fault =>
    obtain ⟨i, wrong, first, found, rfl⟩ := (validNodes_eq_error_iff typed).mp nodesRun
    change Except.error _ = _ ↔ _
    rw [Except.error.injEq]
    constructor
    · intro same
      obtain ⟨rfl, rfl⟩ := Fault.rejected.inj same
      exact .node first found
    · rintro (⟨other, found'⟩ | ⟨all, -, -⟩)
      · have again := (validNodes_eq_error_iff typed).mpr ⟨_, _, other, found', rfl⟩
        exact Except.error.inj (nodesRun.symm.trans again)
      · exact absurd all first.not_forall
  | ok records =>
    obtain ⟨valid, rfl⟩ := validNodes_eq_ok_iff.mp nodesRun
    change (validEdges 0 edges >>= fun _ => _) = _ ↔ _
    cases edgesRun : validEdges 0 edges with
    | error fault =>
      obtain ⟨j, wrong, first, found, rfl⟩ := validEdges_eq_error_iff.mp edgesRun
      change Except.error _ = _ ↔ _
      rw [Except.error.injEq]
      constructor
      · intro same
        obtain ⟨rfl, rfl⟩ := Fault.rejected.inj same
        exact .edge valid first found
      · rintro (⟨other, found'⟩ | ⟨-, other, found'⟩)
        · exact absurd valid other.not_forall
        · have again := validEdges_eq_error_iff.mpr ⟨_, _, other, found', rfl⟩
          exact Except.error.inj (edgesRun.symm.trans again)
    | ok links =>
      obtain ⟨valid', rfl⟩ := validEdges_eq_ok_iff.mp edgesRun
      refine iff_of_false ((hinges_build valid valid').not_rejected place defect) ?_
      rintro (⟨other, -⟩ | ⟨-, other, -⟩)
      · exact other.not_forall valid
      · exact other.not_forall valid'

private theorem exists_firstDefect_iff : (∃ place defect, FirstDefect nodes edges place defect) ↔
    (∃ e ∈ nodes, ¬ IsNode e) ∨ ∃ e ∈ edges, ¬ IsEdge e := by
  rw [← exists_isFirstInvalid_iff, ← exists_isFirstInvalid_iff]
  constructor
  · rintro ⟨_, _, ⟨first, -⟩ | ⟨-, first, -⟩⟩
    · exact Or.inl ⟨_, first⟩
    · exact Or.inr ⟨_, first⟩
  · intro defective
    by_cases valid : ∀ e ∈ nodes, IsNode e
    · obtain ⟨j, first⟩ := defective.resolve_left fun ⟨i, first⟩ => first.not_forall valid
      obtain ⟨e, here, invalid⟩ := first.1
      obtain ⟨defect, wrong⟩ :=
        Option.ne_none_iff_exists'.mp (edgeDefect?_eq_none_iff.not.mpr invalid)
      exact ⟨_, defect, .edge valid first (by rw [here, Option.bind_some, wrong])⟩
    · obtain ⟨i, first⟩ : ∃ i, IsFirstInvalid IsNode nodes i := by
        rw [exists_isFirstInvalid_iff]
        simpa using valid
      obtain ⟨e, here, invalid⟩ := first.1
      obtain ⟨defect, wrong⟩ :=
        Option.ne_none_iff_exists'.mp (nodeDefect?_eq_none_iff.not.mpr invalid)
      exact ⟨_, defect, .node first (by rw [here, Option.bind_some, wrong])⟩

section Agreement

private theorem entryDefect?_eq {names : List String} {checks : List (Fields → Option Defect)}
    (reads : ∀ check ∈ checks, ∀ own own' : Fields,
      (∀ name ∈ names, own.get name = own'.get name) → check own = check own')
    (agree : AgreeOn names entry entry') :
    entryDefect? checks entry = entryDefect? checks entry' := by
  unfold AgreeOn at agree
  unfold entryDefect?
  cases inside : unwrapped entry with
  | none =>
    cases inside' : unwrapped entry' with
    | none =>
      rw [inside, inside'] at agree
      exact congrArg (fun kind => some (Defect.entryNotObject kind)) agree
    | some own' => simp [inside, inside'] at agree
  | some own =>
    cases inside' : unwrapped entry' with
    | none => simp [inside, inside'] at agree
    | some own' =>
      rw [inside, inside'] at agree
      simp only [← List.head?_filterMap]
      rw [List.filterMap_congr fun check member => reads check member own own' agree]

private theorem nodeDefect?_eq (agree : AgreeOn ["id", "type"] entry entry') :
    nodeDefect? entry = nodeDefect? entry' := by
  refine entryDefect?_eq (fun check member own own' same => ?_) agree
  have id := same "id" (by simp)
  have type := same "type" (by simp)
  rcases List.mem_pair.mp member with rfl | rfl
  · unfold nameDefect?
    rw [id]
  · unfold typeDefect?
    rw [type]

private theorem edgeDefect?_eq (agree : AgreeOn ["source", "target"] entry entry') :
    edgeDefect? entry = edgeDefect? entry' := by
  refine entryDefect?_eq (fun check member own own' same => ?_) agree
  have source := same "source" (by simp)
  have target := same "target" (by simp)
  rcases List.mem_pair.mp member with rfl | rfl
  · unfold nameDefect?
    rw [source]
  · unfold nameDefect?
    rw [target]

private theorem isFirstInvalid_iff_map {valid : Payload → Prop} {defect? : Payload → Option Defect}
    (none_iff : ∀ e, defect? e = none ↔ valid e) {entries : List Payload} {i : Nat} :
    IsFirstInvalid valid entries i ↔ (∃ d, (entries.map defect?)[i]? = some d ∧ d ≠ none) ∧
      ∀ j < i, ∀ d, (entries.map defect?)[j]? = some d → d = none := by
  simp [IsFirstInvalid, ← none_iff]

private theorem hasTextType_of_agree (agree : AgreeOn ["id", "type"] entry entry')
    (typed : HasTextType entry) : HasTextType entry' := by
  intro own' inside'
  unfold AgreeOn at agree
  rw [inside'] at agree
  cases inside : unwrapped entry with
  | none => simp [inside] at agree
  | some own =>
    rw [inside] at agree
    have type : own.get "type" = own'.get "type" := agree "type" (by simp)
    rw [← type]
    exact typed own inside

private theorem forall_mem_of_forall₂ {r : Payload → Payload → Prop} {p : Payload → Prop}
    {entries entries' : List Payload} (pairs : List.Forall₂ r entries entries')
    (kept : ∀ {e e'}, r e e' → p e → p e') (all : ∀ e ∈ entries, p e) : ∀ e ∈ entries', p e := by
  induction pairs with
  | nil => exact all
  | cons here _ ih =>
    obtain ⟨first, later⟩ := List.forall_mem_cons.mp all
    exact List.forall_mem_cons.mpr ⟨kept here first, ih later⟩

private theorem map_eq_map_of_forall₂ {r : Payload → Payload → Prop}
    {defect? : Payload → Option Defect}
    {entries entries' : List Payload} (pairs : List.Forall₂ r entries entries')
    (same : ∀ {e e'}, r e e' → defect? e = defect? e') :
    entries.map defect? = entries'.map defect? := by
  induction pairs with
  | nil => rfl
  | cons here _ ih => rw [List.map_cons, List.map_cons, same here, ih]

theorem firstDefect_congr (nodesSame : nodes.map nodeDefect? = nodes'.map nodeDefect?)
    (edgesSame : edges.map edgeDefect? = edges'.map edgeDefect?) :
    FirstDefect nodes edges place defect → FirstDefect nodes' edges' place defect := by
  have read : ∀ (entries : List Payload) (defect? : Payload → Option Defect) (i : Nat),
      entries[i]?.bind defect? = (entries.map defect?)[i]?.join := by
    intro entries defect? i
    rw [List.getElem?_map]
    cases entries[i]? <;> rfl
  rintro (⟨first, wrong⟩ | ⟨valid, first, wrong⟩)
  · rw [isFirstInvalid_iff_map fun e => nodeDefect?_eq_none_iff, nodesSame,
      ← isFirstInvalid_iff_map fun e => nodeDefect?_eq_none_iff] at first
    exact .node first (by rwa [read, ← nodesSame, ← read])
  · rw [isFirstInvalid_iff_map fun e => edgeDefect?_eq_none_iff, edgesSame,
      ← isFirstInvalid_iff_map fun e => edgeDefect?_eq_none_iff] at first
    refine .edge ?_ first (by rwa [read, ← edgesSame, ← read])
    have all : ∀ d ∈ nodes.map nodeDefect?, d = none := by
      simpa [nodeDefect?_eq_none_iff] using valid
    rw [nodesSame] at all
    simpa [nodeDefect?_eq_none_iff] using all

end Agreement

/-- A snapshot whose node types are texts or missing is rejected exactly if an entry is invalid. The
rejection names the first invalid node, or if there is none the first invalid edge, and is the same
for all entries that agree on the attributes that validation reads. -/
theorem rejected_iff_invalid (nodesListed : listed (fields.get "nodes") = some nodes)
    (edgesListed : listed (fields.get "edges") = some edges)
    (typed : ∀ e ∈ nodes, HasTextType e) :
    ((∃ place defect, ofPayload (.record fields) = .error (.rejected place defect)) ↔
      (∃ e ∈ nodes, ¬ IsNode e) ∨ ∃ e ∈ edges, ¬ IsEdge e) ∧
    (∀ place defect, ofPayload (.record fields) = .error (.rejected place defect) ↔
      FirstDefect nodes edges place defect) ∧
    ∀ (fields' : Fields) nodes' edges', listed (fields'.get "nodes") = some nodes' →
      listed (fields'.get "edges") = some edges' →
      List.Forall₂ (AgreeOn ["id", "type"]) nodes nodes' →
      List.Forall₂ (AgreeOn ["source", "target"]) edges edges' →
      ∀ place defect, ofPayload (.record fields') = .error (.rejected place defect) ↔
        ofPayload (.record fields) = .error (.rejected place defect) := by
  have named : ∀ place defect, ofPayload (.record fields) = .error (.rejected place defect) ↔
      FirstDefect nodes edges place defect := fun place defect =>
    ofPayload_eq_rejected_iff nodesListed edgesListed typed
  refine ⟨?_, named, ?_⟩
  · simp only [named, exists_firstDefect_iff]
  · intro fields' nodes' edges' nodesListed' edgesListed' nodePairs edgePairs place defect
    have typed' : ∀ e ∈ nodes', HasTextType e :=
      forall_mem_of_forall₂ nodePairs hasTextType_of_agree typed
    have nodesSame := map_eq_map_of_forall₂ nodePairs nodeDefect?_eq
    have edgesSame := map_eq_map_of_forall₂ edgePairs edgeDefect?_eq
    rw [named, ofPayload_eq_rejected_iff nodesListed' edgesListed' typed']
    exact ⟨firstDefect_congr nodesSame.symm edgesSame.symm, firstDefect_congr nodesSame edgesSame⟩

/-- The second node has an unknown type. The first one could not be read, and the third one and the
edge would be rejected as well. -/
theorem rejected_iff_invalid_of_mixed :
    let nodes : List Payload := [
      .record [("id", .text "t"), ("type", .text "tool"), ("parents", .int 5)],
      .record [("data", .record [("id", .int 7), ("type", .text "server")])], .int 5]
    let edges : List Payload := [.record [("source", .text " ")]]
    (∀ e ∈ nodes, HasTextType e) ∧
      ofPayload (.record [("nodes", .list nodes), ("edges", .list edges)]) =
        .error (.rejected (.node 1) (.unknownType "'server'")) := by
  intro nodes edges
  have typed : ∀ e ∈ nodes, HasTextType e := by
    simp [nodes, HasTextType, unwrapped, Fields.get, Fields.get?]
  have first : IsFirstInvalid IsNode nodes 1 := by
    refine ⟨⟨_, rfl, by decide +kernel⟩, fun j before e found => ?_⟩
    obtain rfl : j = 0 := by omega
    obtain rfl := Option.some.inj found
    decide +kernel
  exact ⟨typed,
    ((rejected_iff_invalid rfl rfl typed).2.1 _ _).mpr (.node first (by decide +kernel))⟩

end CapabilityAtlas.Snapshot
