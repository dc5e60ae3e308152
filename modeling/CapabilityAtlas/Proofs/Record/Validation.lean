import CapabilityAtlas.Proofs.Payload.Conversion
import CapabilityAtlas.Record.Snapshot

set_option autoImplicit false
set_option relaxedAutoImplicit false

/-!
Validation of a snapshot. Entries are validated in order, and what is wrong with one is a rejection,
with one exception: the type of a node is compared with the known ones and written into the
rejection if it is none of them, and neither can be done with every value.
-/

namespace CapabilityAtlas

def EachAfter {α : Type} (p : List α → α → Prop) (xs : List α) : Prop :=
  ∀ before x after, xs = before ++ x :: after → p before x

section EachAfter

variable {α : Type} {p : List α → α → Prop}

theorem eachAfter_nil : EachAfter p [] := by
  intro before x after split
  simp at split

theorem eachAfter_cons_iff {x : α} {xs : List α} :
    EachAfter p (x :: xs) ↔ p [] x ∧ EachAfter (fun before => p (x :: before)) xs := by
  constructor
  · intro each
    refine ⟨each [] x xs rfl, fun before y after split => ?_⟩
    exact each (x :: before) y after (by rw [split, List.cons_append])
  · rintro ⟨first, later⟩ before y after split
    cases before with
    | nil =>
      obtain ⟨rfl, -⟩ := List.cons.inj split
      exact first
    | cons z before =>
      obtain ⟨rfl, same⟩ := List.cons.inj split
      exact later before y after same

end EachAfter

namespace Snapshot

def unwrapped : Payload → Option Fields
  | .record fields =>
    match Fields.get fields "data" with
    | .record data => some data
    | _ => some fields
  | _ => none

def isName : Payload → Bool
  | .text s => !Text.isBlankText s
  | .int _ | .bool _ => true
  | _ => false

/-- The kind that a type stands for, where nothing stands for a node that is left out. -/
def kindOf : Payload → Option (Option NodeKind)
  | .text "tool_invocation" => some none
  | .text "tool" => some (some .tool)
  | .text "capability" => some (some .capability)
  | _ => none

/-- Whether a type can be compared, and written if it is not known. -/
def isComparable : Payload → Bool
  | .list _ | .record _ => false
  | value => value.isWritable

def IsNode (entry : Payload) : Prop :=
  ∃ fields, unwrapped entry = some fields ∧ isName (fields.get "id") ∧
    (kindOf (fields.get "type")).isSome

def IsEdge (entry : Payload) : Prop :=
  ∃ fields, unwrapped entry = some fields ∧ isName (fields.get "source") ∧
    isName (fields.get "target")

/-- The kind and the attributes of a node entry, unless it is left out. -/
def nodeRecord? (entry : Payload) : Option (NodeKind × Fields) :=
  (unwrapped entry).bind fun fields => (kindOf (fields.get "type")).join.map (·, fields)

def listed (value : Payload) : Option (List Payload) :=
  if value.isGiven then
    match value with
    | .list items => some items
    | _ => none
  else some []

variable {place : Place} {entry value : Payload} {fields : Fields}

private theorem attributes_eq_ok_iff :
    attributes place entry = .ok fields ↔ unwrapped entry = some fields := by
  cases entry with
  | record own =>
    simp only [attributes, unwrapped]
    cases Fields.get own "data" <;> simp
  | null | bool | int | float | text | list | stamp => simp [attributes, unwrapped]

private theorem orderly_attributes (place : Place) (entry : Payload) :
    Orderly (attributes place entry) := by
  cases entry with
  | record own =>
    simp only [attributes]
    cases Fields.get own "data" <;> exact orderly_ok _
  | null | bool | int | float | text | list | stamp => exact orderly_rejected _ _

theorem checkText_eq_ok_iff {field : String} :
    checkText place fields field = .ok () ↔ isName (fields.get field) := by
  unfold checkText isName
  cases fields.get field with
  | text s => by_cases blank : Text.isBlankText s <;> simp [blank]
  | null | bool | int | float | list | record | stamp => simp

private theorem orderly_checkText (place : Place) (fields : Fields) (field : String) :
    Orderly (checkText place fields field) := by
  unfold checkText
  cases fields.get field with
  | text s =>
    by_cases blank : Text.isBlankText s
    · simp only [blank, if_true]
      exact orderly_rejected _ _
    · simp only [blank, Bool.false_eq_true, if_false]
      exact orderly_ok ()
  | int | bool => exact orderly_ok ()
  | null | float | list | record | stamp => exact orderly_rejected _ _

/-- What becomes of a node whose type is none of the known ones: the type is written into the
rejection, but lists and records cannot even be compared. -/
def refusal (place : Place) : Payload → Except Fault (Option NodeKind)
  | .list _ | .record _ => .error .unsupportedKind
  | value => value.quoted >>= fun text => .error (.rejected place (.unknownType text))

theorem nodeKind_eq (place : Place) (fields : Fields) :
    nodeKind place fields =
      match kindOf (fields.get "type") with
      | some kind => .ok kind
      | none => refusal place (fields.get "type") := by
  unfold nodeKind
  generalize fields.get "type" = value
  cases value with
  | text s =>
    by_cases invocation : s = "tool_invocation"
    · subst invocation
      rfl
    · by_cases tool : s = "tool"
      · subst tool
        rfl
      · by_cases capability : s = "capability"
        · subst capability
          rfl
        · simp [kindOf, refusal, invocation, tool, capability]
  | null | bool | int | float | list | record | stamp => rfl

private theorem orderly_refusal_iff (place : Place) (value : Payload) :
    Orderly (refusal place value) ↔ isComparable value := by
  have written : Orderly (value.quoted >>= fun text =>
      (.error (.rejected place (.unknownType text)) : Except Fault (Option NodeKind))) ↔
        value.isWritable := by
    rw [orderly_bind_iff, (Payload.hinges_quoted value).orderly_iff]
    exact and_iff_left fun text _ => orderly_rejected _ _
  cases value with
  | list | record => simp [refusal, isComparable, Orderly]
  | null | bool | int | float | text | stamp => exact written

private theorem refusal_ne_ok (place : Place) (value : Payload) (kind : Option NodeKind) :
    refusal place value ≠ .ok kind := by
  intro made
  cases value with
  | list | record => simp [refusal] at made
  | null | bool | int | float | text | stamp =>
    obtain ⟨_, _, made⟩ := Fault.ok_of_bind made
    simp at made

private theorem nodeKind_eq_ok_iff {kind : Option NodeKind} :
    nodeKind place fields = .ok kind ↔ kindOf (fields.get "type") = some kind := by
  rw [nodeKind_eq]
  cases kindOf (fields.get "type") with
  | some known => simp
  | none => simp [refusal_ne_ok]

theorem isComparable_of_kindOf {kind : Option NodeKind} (known : kindOf value = some kind) :
    isComparable value := by
  cases value with
  | text s => rfl
  | null | bool | int | float | list | record | stamp => simp [kindOf] at known

private theorem orderly_nodeKind_iff :
    Orderly (nodeKind place fields) ↔ isComparable (fields.get "type") := by
  rw [nodeKind_eq]
  cases known : kindOf (fields.get "type") with
  | some kind => exact iff_of_true (orderly_ok kind) (isComparable_of_kindOf known)
  | none => exact orderly_refusal_iff place _

theorem validNode_eq_ok_iff {index : Nat} {record : Option (NodeKind × Fields)} :
    validNode index entry = .ok record ↔ IsNode entry ∧ record = nodeRecord? entry := by
  constructor
  · intro run
    obtain ⟨fields, inside, run⟩ := Fault.ok_of_bind run
    obtain ⟨⟨⟩, named, run⟩ := Fault.ok_of_bind run
    obtain ⟨kind, typed, run⟩ := Fault.ok_of_bind run
    obtain rfl := Except.ok.inj run
    rw [attributes_eq_ok_iff] at inside
    rw [checkText_eq_ok_iff] at named
    rw [nodeKind_eq_ok_iff] at typed
    refine ⟨⟨fields, inside, named, by simp [typed]⟩, ?_⟩
    rw [nodeRecord?, inside, Option.bind_some, typed]
    cases kind <;> rfl
  · rintro ⟨⟨fields, inside, named, typed⟩, rfl⟩
    obtain ⟨kind, typed⟩ := Option.isSome_iff_exists.mp typed
    unfold validNode
    rw [attributes_eq_ok_iff.mpr inside, nodeRecord?, inside]
    change (checkText (.node index) fields "id" >>= fun _ => _) = _
    rw [checkText_eq_ok_iff.mpr named]
    change (nodeKind (.node index) fields >>= fun _ => _) = _
    rw [nodeKind_eq_ok_iff.mpr typed, Option.bind_some, typed]
    cases kind <;> rfl

theorem orderly_validNode_iff {index : Nat} :
    Orderly (validNode index entry) ↔ ∀ fields, unwrapped entry = some fields →
      isName (fields.get "id") → isComparable (fields.get "type") := by
  unfold validNode
  rw [orderly_bind_iff, and_iff_right (orderly_attributes _ _)]
  refine forall_congr' fun fields => ?_
  rw [attributes_eq_ok_iff]
  refine imp_congr_right fun _ => ?_
  rw [orderly_bind_iff, and_iff_right (orderly_checkText _ _ _)]
  constructor
  · intro each named
    have rest := each () (checkText_eq_ok_iff.mpr named)
    exact orderly_nodeKind_iff.mp (orderly_bind_iff.mp rest).1
  · intro typed ⟨⟩ named
    rw [orderly_bind_iff, orderly_nodeKind_iff]
    exact ⟨typed (checkText_eq_ok_iff.mp named), fun kind _ => orderly_ok _⟩

theorem validNodes_eq_ok_iff {index : Nat} {entries : List Payload}
    {records : List (NodeKind × Fields)} :
    validNodes index entries = .ok records ↔
      (∀ e ∈ entries, IsNode e) ∧ records = entries.filterMap nodeRecord? := by
  induction entries generalizing index records with
  | nil => simp [validNodes, eq_comm]
  | cons entry rest ih =>
    rw [List.forall_mem_cons, and_assoc]
    constructor
    · intro run
      obtain ⟨first, one, run⟩ := Fault.ok_of_bind run
      obtain ⟨others, later, run⟩ := Fault.ok_of_bind run
      obtain rfl := Except.ok.inj run
      obtain ⟨valid, rfl⟩ := validNode_eq_ok_iff.mp one
      obtain ⟨valids, rfl⟩ := ih.mp later
      refine ⟨valid, valids, ?_⟩
      cases found : nodeRecord? entry <;> simp [found]
    · rintro ⟨valid, valids, rfl⟩
      have one : validNode index entry = .ok (nodeRecord? entry) :=
        validNode_eq_ok_iff.mpr ⟨valid, rfl⟩
      have later : validNodes (index + 1) rest = .ok (rest.filterMap nodeRecord?) :=
        ih.mpr ⟨valids, rfl⟩
      rw [validNodes, one]
      change (validNodes (index + 1) rest >>= fun _ => _) = _
      rw [later]
      cases found : nodeRecord? entry <;> simp [found]

/-- Validation goes wrong where it comes to a type that cannot be compared or written. -/
theorem orderly_validNodes_iff {index : Nat} {entries : List Payload} :
    Orderly (validNodes index entries) ↔
      EachAfter (fun before entry => (∀ e ∈ before, IsNode e) → ∀ fields,
        unwrapped entry = some fields → isName (fields.get "id") →
          isComparable (fields.get "type")) entries := by
  induction entries generalizing index with
  | nil => exact iff_of_true (orderly_ok []) eachAfter_nil
  | cons entry rest ih =>
    rw [validNodes, orderly_bind_iff, orderly_validNode_iff, eachAfter_cons_iff]
    have after : ∀ made, Orderly (validNodes (index + 1) rest >>= fun others =>
        (.ok (Option.toList made ++ others) : Except Fault (List (NodeKind × Fields)))) ↔
          Orderly (validNodes (index + 1) rest) := fun made => by
      rw [orderly_bind_iff]
      exact and_iff_left fun others _ => orderly_ok _
    refine and_congr (by simp) ?_
    constructor
    · intro each before e behind split valid
      obtain ⟨head, valids⟩ := List.forall_mem_cons.mp valid
      have one : validNode index entry = .ok (nodeRecord? entry) :=
        validNode_eq_ok_iff.mpr ⟨head, rfl⟩
      exact ih.mp ((after _).mp (each _ one)) before e behind split valids
    · intro each made run
      obtain ⟨head, -⟩ := validNode_eq_ok_iff.mp run
      refine (after made).mpr (ih.mpr fun before e behind split valids => ?_)
      exact each before e behind split (List.forall_mem_cons.mpr ⟨head, valids⟩)

theorem validEdge_eq_ok_iff {index : Nat} :
    validEdge index entry = .ok fields ↔ IsEdge entry ∧ unwrapped entry = some fields := by
  constructor
  · intro run
    obtain ⟨own, inside, run⟩ := Fault.ok_of_bind run
    obtain ⟨⟨⟩, starts, run⟩ := Fault.ok_of_bind run
    obtain ⟨⟨⟩, ends, run⟩ := Fault.ok_of_bind run
    obtain rfl := Except.ok.inj run
    rw [attributes_eq_ok_iff] at inside
    rw [checkText_eq_ok_iff] at starts ends
    exact ⟨⟨own, inside, starts, ends⟩, inside⟩
  · rintro ⟨⟨own, inside, starts, ends⟩, same⟩
    obtain rfl := Option.some.inj (inside.symm.trans same)
    unfold validEdge
    rw [attributes_eq_ok_iff.mpr inside]
    change (checkText (.edge index) own "source" >>= fun _ => _) = _
    rw [checkText_eq_ok_iff.mpr starts]
    change (checkText (.edge index) own "target" >>= fun _ => _) = _
    rw [checkText_eq_ok_iff.mpr ends]
    rfl

private theorem orderly_validEdge (index : Nat) (entry : Payload) :
    Orderly (validEdge index entry) := by
  unfold validEdge
  refine orderly_bind_iff.mpr ⟨orderly_attributes _ _, fun fields _ => ?_⟩
  refine orderly_bind_iff.mpr ⟨orderly_checkText _ _ _, fun _ _ => ?_⟩
  exact orderly_bind_iff.mpr ⟨orderly_checkText _ _ _, fun _ _ => orderly_ok fields⟩

theorem validEdges_eq_ok_iff {index : Nat} {entries : List Payload} {records : List Fields} :
    validEdges index entries = .ok records ↔
      (∀ e ∈ entries, IsEdge e) ∧ records = entries.filterMap unwrapped := by
  induction entries generalizing index records with
  | nil => simp [validEdges, eq_comm]
  | cons entry rest ih =>
    rw [List.forall_mem_cons, and_assoc]
    constructor
    · intro run
      obtain ⟨first, one, run⟩ := Fault.ok_of_bind run
      obtain ⟨others, later, run⟩ := Fault.ok_of_bind run
      obtain rfl := Except.ok.inj run
      obtain ⟨valid, inside⟩ := validEdge_eq_ok_iff.mp one
      obtain ⟨valids, rfl⟩ := ih.mp later
      exact ⟨valid, valids, by simp [inside]⟩
    · rintro ⟨valid, valids, rfl⟩
      obtain ⟨fields, inside, -⟩ := id valid
      have one : validEdge index entry = .ok fields := validEdge_eq_ok_iff.mpr ⟨valid, inside⟩
      have later : validEdges (index + 1) rest = .ok (rest.filterMap unwrapped) :=
        ih.mpr ⟨valids, rfl⟩
      rw [validEdges, one]
      change (validEdges (index + 1) rest >>= fun _ => _) = _
      rw [later, List.filterMap_cons_some inside]
      rfl

theorem orderly_validEdges (index : Nat) (entries : List Payload) :
    Orderly (validEdges index entries) := by
  induction entries generalizing index with
  | nil => exact orderly_ok []
  | cons entry rest ih =>
    refine orderly_bind_iff.mpr ⟨orderly_validEdge index entry, fun first _ => ?_⟩
    exact orderly_bind_iff.mpr ⟨ih (index + 1), fun others _ => orderly_ok _⟩

theorem entries_eq_ok_iff {items : List Payload} :
    entries place value = .ok items ↔ listed value = some items := by
  unfold entries listed
  by_cases given : value.isGiven
  · rw [if_pos given, if_pos given]
    cases value <;> simp
  · rw [if_neg given, if_neg given]
    simp

theorem orderly_entries (place : Place) (value : Payload) : Orderly (entries place value) := by
  unfold entries
  by_cases given : value.isGiven
  · rw [if_pos given]
    cases value with
    | list items => exact orderly_ok items
    | null | bool | int | float | text | record | stamp => exact orderly_rejected _ _
  · rw [if_neg given]
    exact orderly_ok []

theorem present_of_isName {name : String} (named : isName (fields.get name)) :
    ∃ value, fields.get? name = some value := by
  cases found : fields.get? name with
  | some value => exact ⟨value, rfl⟩
  | none =>
    unfold Fields.get at named
    simp [found, isName] at named

end Snapshot

end CapabilityAtlas
