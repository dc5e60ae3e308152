import CapabilityAtlas.Proofs.Payload.Conversion
import CapabilityAtlas.Proofs.Record.DistinctIds

set_option autoImplicit false
set_option relaxedAutoImplicit false

/-!
Records whose attributes can be read. Attributes may have any kind and most are replaced by a
default where they make no sense; what remains are numbers and times out of range, whole numbers
that are too long to be written, and declared parents that are not a list.
-/

namespace CapabilityAtlas

namespace HingesOn

variable {α β γ : Type} {p q : Prop}

private theorem andThenAfter {first : Except Fault α} {next : α → Except Fault β}
    {last : β → Except Fault γ} (both : HingesOn (first >>= next) p)
    (after : ∀ made, HingesOn (last made) q) :
    HingesOn (first >>= fun made => next made >>= last) (p ∧ q) := by
  rw [← bind_assoc]
  exact both.andThen after

end HingesOn

variable {fields : Fields} {id : Payload}

theorem Edge.required_eq_ok {name : String} {value : Payload}
    (present : fields.get? name = some value) : required fields name = .ok value := by
  unfold required
  rw [present]

theorem Fields.get_of_get? {name : String} {value : Payload}
    (present : fields.get? name = some value) : fields.get name = value := by
  unfold get
  rw [present, Option.getD_some]

def shownName (fields : Fields) : Payload :=
  ((fields.get "label").orElse (fields.get "name")).orElse (fields.get "id")

private theorem nameValue_eq_ok (present : fields.get? "id" = some id) :
    Tool.nameValue fields = .ok (shownName fields) := by
  unfold Tool.nameValue shownName
  rw [Edge.required_eq_ok present, Fields.get_of_get? present]
  by_cases label : (fields.get "label").isGiven
  · simp [Payload.orElse, label]
  · by_cases name : (fields.get "name").isGiven
    · simp [Payload.orElse, label, name]
    · simp [Payload.orElse, label, name]

namespace Tool

/-- Declared parents are a list, a text or a record, in which what counts can be written; where
there are none the single parent can. -/
def ParentsLegible (fields : Fields) : Prop :=
  match fields.get "parents" with
  | .null => (fields.get "parent").isGiven → (fields.get "parent").isWritable
  | .list items => ∀ item ∈ items, item.isGiven → item.isWritable
  | .text _ | .record _ => True
  | _ => False

private theorem hinges_parents (fields : Fields) :
    HingesOn (parentValues fields >>= fun values =>
      (values.filter Payload.isGiven).mapM Payload.spelled) (ParentsLegible fields) := by
  have written : ∀ values : List Payload,
      HingesOn ((values.filter Payload.isGiven).mapM Payload.spelled)
        (∀ v ∈ values, v.isGiven → v.isWritable) := by
    intro values
    refine (HingesOn.mapM _ fun v _ => Payload.hinges_spelled v).congr ?_
    simp only [List.mem_filter, and_imp]
  have texts : ∀ {β : Type} (g : β → String) (xs : List β),
      ∀ v ∈ xs.map (fun x => Payload.text (g x)), v.isGiven → v.isWritable := by
    intro β g xs v member _
    obtain ⟨x, -, rfl⟩ := List.mem_map.mp member
    simp [Payload.isWritable]
  unfold parentValues ParentsLegible
  cases fields.get "parents" with
  | null =>
    refine (written _).congr ?_
    by_cases given : (fields.get "parent").isGiven
    · simp [given]
    · simp [given]
  | list items => exact written items
  | text s => exact (written _).congr (iff_of_true (texts _ s.toList) trivial)
  | record entries => exact (written _).congr (iff_of_true (texts _ entries) trivial)
  | bool | int | float | stamp => exact HingesOn.of_not rfl (by simp) (by simp)

/-- A tool record whose attributes can all be read. -/
structure Legible (fields : Fields) : Prop where
  id : (fields.get "id").isWritable
  name : (shownName fields).isWritable
  server : (serverValue fields).isWritable
  pagerank : (fields.get "pagerank").isMeasurable
  degree : (fields.get "degree").isMeasurable
  parents : ParentsLegible fields
  lastUsed : (fields.get "last_used").isDatable

theorem hinges_ofFields (present : fields.get? "id" = some id) :
    HingesOn (ofFields fields) (Legible fields) := by
  unfold ofFields
  rw [Edge.required_eq_ok present, nameValue_eq_ok present]
  have steps := (Payload.hinges_spelled id).andThen fun id =>
    (Payload.hinges_spelled (shownName fields)).andThen fun name =>
    (Payload.hinges_spelled (serverValue fields)).andThen fun server =>
    (Payload.hinges_numberOr 0 (fields.get "pagerank")).andThen fun pagerank =>
    (Payload.hinges_numberOr 0 (fields.get "degree")).andThen fun degree =>
    (hinges_parents fields).andThenAfter fun parents =>
    (Payload.hinges_moment? (fields.get "last_used")).map (g := fun lastUsed => ({
      id := id
      name := name
      server := server
      pagerank := pagerank
      degree := (Numeral.Exact.ofBinary degree).truncated?.getD 0
      communityId := (fields.get "community_id").whole?
      parents := parents
      lastUsed := lastUsed } : Tool))
  refine steps.congr ?_
  rw [← Fields.get_of_get? present]
  constructor
  · rintro ⟨id, name, server, pagerank, degree, parents, lastUsed⟩
    exact ⟨id, name, server, pagerank, degree, parents, lastUsed⟩
  · rintro ⟨id, name, server, pagerank, degree, parents, lastUsed⟩
    exact ⟨id, name, server, pagerank, degree, parents, lastUsed⟩

end Tool

namespace Capability

/-- The time of the first recorded trace, if there is one. -/
def tracedAt (fields : Fields) : Payload :=
  match fields.get "traces" with
  | .list (.record trace :: _) => Fields.get trace "executed_at"
  | _ => .null

private theorem firstTrace_eq (fields : Fields) :
    firstTrace fields = (tracedAt fields).moment? := by
  unfold firstTrace tracedAt
  cases fields.get "traces" with
  | list traces =>
    cases traces with
    | nil => rfl
    | cons first rest => cases first <;> rfl
  | null | bool | int | float | text | record | stamp => rfl

/-- A capability record whose attributes can all be read. The first trace counts only where the
record itself gives no time. -/
structure Legible (fields : Fields) : Prop where
  lastUsed : (fields.get "last_used").isDatable
  traced : (fields.get "last_used").moment? = .ok none → (tracedAt fields).isDatable
  id : (fields.get "id").isWritable
  name : (shownName fields).isWritable
  usageCount : (fields.get "usage_count").isMeasurable
  successRate : (fields.get "success_rate").isMeasurable
  pagerank : (fields.get "pagerank").isMeasurable

private theorem hinges_lastUse (fields : Fields) :
    HingesOn (lastUse fields) ((fields.get "last_used").isDatable ∧
      ((fields.get "last_used").moment? = .ok none → (tracedAt fields).isDatable)) := by
  have steps : HingesOn (lastUse fields) ((fields.get "last_used").isDatable ∧
      ∀ found, (fields.get "last_used").moment? = .ok found →
        found = none → (tracedAt fields).isDatable) := by
    refine (Payload.hinges_moment? (fields.get "last_used")).bind fun found _ => ?_
    cases found with
    | some i => exact (HingesOn.ok _).congr (by simp)
    | none =>
      rw [firstTrace_eq]
      exact (Payload.hinges_moment? _).congr (by simp)
  refine steps.congr ?_
  refine and_congr_right fun _ => ?_
  constructor
  · exact fun each found => each none found rfl
  · rintro once _ found rfl
    exact once found

theorem hinges_ofFields (present : fields.get? "id" = some id) :
    HingesOn (ofFields fields) (Legible fields) := by
  unfold ofFields
  rw [Edge.required_eq_ok present, nameValue_eq_ok present]
  have steps := (hinges_lastUse fields).andThen fun lastUsed =>
    (Payload.hinges_spelled id).andThen fun id =>
    (Payload.hinges_spelled (shownName fields)).andThen fun name =>
    (Payload.hinges_numberOr 0 (fields.get "usage_count")).andThen fun usageCount =>
    (Payload.hinges_numberOr 0 (fields.get "success_rate")).andThen fun successRate =>
    (Payload.hinges_numberOr 0 (fields.get "pagerank")).map (g := fun pagerank => ({
      id := id
      name := name
      usageCount := usageCount
      successRate := successRate
      pagerank := pagerank
      lastUsed := lastUsed
      communityId := (fields.get "community_id").whole?
      description := (fields.get "description").orElse (fields.get "intent")
      fqdn := fields.get "fqdn"
      codeSnippet := fields.get "code_snippet"
      parentId := none } : Capability))
  refine steps.congr ?_
  rw [← Fields.get_of_get? present]
  constructor
  · rintro ⟨⟨lastUsed, traced⟩, id, name, usageCount, successRate, pagerank⟩
    exact ⟨lastUsed, traced, id, name, usageCount, successRate, pagerank⟩
  · rintro ⟨lastUsed, traced, id, name, usageCount, successRate, pagerank⟩
    exact ⟨⟨lastUsed, traced⟩, id, name, usageCount, successRate, pagerank⟩

end Capability

namespace Edge

/-- An edge record whose attributes can all be read. -/
structure Legible (fields : Fields) : Prop where
  source : (fields.get "source").isWritable
  target : (fields.get "target").isWritable
  weight : (fields.get "weight").isMeasurable

theorem hinges_ofFields {source target : Payload} (starts : fields.get? "source" = some source)
    (ends : fields.get? "target" = some target) : HingesOn (ofFields fields) (Legible fields) := by
  unfold ofFields
  rw [required_eq_ok starts, required_eq_ok ends]
  have steps := (Payload.hinges_spelled source).andThen fun source =>
    (Payload.hinges_spelled target).andThen fun target =>
    (Payload.hinges_number? (fields.get "weight")).map (g := fun weight => ({
      source := source
      target := target
      relation := Relation.ofPayload ((fields.get "edge_type").orElse (fields.get "edgeType"))
      weight := weight
      observedCount := (fields.get "observed_count").whole? } : Edge))
  refine steps.congr ?_
  rw [← Fields.get_of_get? starts, ← Fields.get_of_get? ends]
  constructor
  · rintro ⟨source, target, weight⟩
    exact ⟨source, target, weight⟩
  · rintro ⟨source, target, weight⟩
    exact ⟨source, target, weight⟩

end Edge

end CapabilityAtlas
