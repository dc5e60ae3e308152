import CapabilityAtlas.Engine
import CapabilityAtlas.Proofs.Hierarchy.Instance
import CapabilityAtlas.Proofs.Outcome

set_option autoImplicit false
set_option relaxedAutoImplicit false

/-!
When a search fails. Names and servers are texts, but the description and the qualified name of a
capability are kept as they were delivered, and a given value that is no text cannot be compared
with a query. One such value in a used capability makes every search fail that compares at all.
-/

namespace CapabilityAtlas.Search

open CapabilityAtlas.Hierarchy CapabilityAtlas.Text

/-- Whether a value is a text or not given. -/
def isTextual : Payload → Bool
  | .text _ => true
  | value => !value.isGiven

/-- A capability all of whose searched attributes can be compared. -/
structure Searchable (c : Capability) : Prop where
  description : isTextual c.description
  fqdn : isTextual c.fqdn

instance (c : Capability) : Decidable (Searchable c) :=
  decidable_of_iff (isTextual c.description ∧ isTextual c.fqdn)
    ⟨fun both => ⟨both.1, both.2⟩, fun all => ⟨all.description, all.fqdn⟩⟩

/-- Whether a value can be compared with a query; with an empty query everything can. -/
def Comparable (query : String) (value : Payload) : Prop := query = "" ∨ isTextual value

theorem isTextual_of_mem_fields {e : Entry} (searchable : Searchable e.capability) :
    ∀ candidate ∈ fields e, isTextual candidate.2 := by
  intro candidate member
  simp only [fields, List.mem_append, List.mem_cons, List.not_mem_nil, or_false,
    List.mem_flatMap] at member
  rcases member with (rfl | rfl | rfl) | ⟨i, -, rfl | rfl⟩
  · rfl
  · exact searchable.description
  · exact searchable.fqdn
  · rfl
  · rfl

variable [WordDistance] {α : Type} [Add α] [Div α] [NatCast α]

private theorem guarded_scoreValue? (value : Payload) (query : String) :
    GuardedBy (scoreValue? value (.text query) : Except Fault (Option α))
      (Comparable query value) .absentMember := by
  unfold scoreValue?
  by_cases skipped : (!value.isGiven || !(Payload.text query).isGiven) = true
  · rw [if_pos skipped]
    refine GuardedBy.ok none ?_
    rcases (Bool.or_eq_true _ _).mp skipped with missing | empty
    · right
      cases value with
      | text => rfl
      | _ => exact missing
    · left
      simpa [Payload.isGiven] using empty
  · rw [if_neg skipped]
    rw [Bool.or_eq_true, not_or] at skipped
    obtain ⟨given, asked⟩ := skipped
    cases value with
    | text t => exact GuardedBy.ok _ (Or.inr rfl)
    | null | bool | int | float | list | record | stamp =>
      refine ⟨fun comparable => ?_, fun _ => rfl⟩
      rcases comparable with rfl | textual
      · simp [Payload.isGiven] at asked
      · exact (given textual).elim

section Ranking

variable [LT α] [DecidableLT α]

private theorem guarded_best? (query : String) (candidates : List (Field × Payload)) :
    GuardedBy (best? query candidates : Except Fault (Option (α × Field)))
      (∀ candidate ∈ candidates, Comparable query candidate.2) .absentMember :=
  GuardedBy.foldlM candidates none fun _ candidate =>
    (guarded_scoreValue? candidate.2 query).map

private theorem guarded_hit? (query : String) (e : Entry) :
    GuardedBy (hit? query e : Except Fault (Option (Hit α)))
      (∀ candidate ∈ fields e, Comparable query candidate.2) .absentMember :=
  (guarded_best? query (fields e)).map

omit [WordDistance] in
private theorem forall_fields_comparable_iff (query : String) (e : Entry) :
    (∀ candidate ∈ fields e, Comparable query candidate.2) ↔
      query = "" ∨ Searchable e.capability := by
  by_cases empty : query = ""
  · exact iff_of_true (fun _ _ => Or.inl empty) (Or.inl empty)
  · constructor
    · intro all
      have description : Comparable query e.capability.description :=
        all (.description, e.capability.description) (by simp [fields])
      have fqdn : Comparable query e.capability.fqdn :=
        all (.fqdn, e.capability.fqdn) (by simp [fields])
      exact Or.inr ⟨description.resolve_left empty, fqdn.resolve_left empty⟩
    · rintro (blank | searchable) candidate member
      · exact (empty blank).elim
      · exact Or.inr (isTextual_of_mem_fields searchable candidate member)

/-- A query that is too short is not compared with anything. -/
theorem guarded_rank (limits : Limits) (entries : List Entry) (query : String) :
    GuardedBy (rank limits entries query : Except Fault (List (Hit α)))
      (query.toList.length < limits.minQueryLength ∨ query = "" ∨
        ∀ e ∈ entries, Searchable e.capability) .absentMember := by
  unfold rank
  by_cases short : query.toList.length < limits.minQueryLength
  · rw [if_pos short]
    exact GuardedBy.ok [] (Or.inl short)
  · rw [if_neg short]
    have compared := GuardedBy.mapM entries (guarded_hit? (α := α) query)
    refine (compared.map (g := fun hits =>
      firstHits limits.maxResults ((hits.filterMap id).mergeSort hitLe))).congr ?_
    simp only [forall_fields_comparable_iff, short, false_or]
    by_cases empty : query = ""
    · simp [empty]
    · simp [empty]

end Ranking

omit [WordDistance] in
private theorem forall_walk_searchable_iff {s : Snapshot} (nodup : (activeIds s).Nodup) :
    (∀ e ∈ (Hierarchy.build s).walk.map Tree.entry, Searchable e.capability) ↔
      ∀ c ∈ s.capabilities, isActive c → Searchable c := by
  have walked := perm_map_entry_walk nodup
  constructor
  · intro all c member active
    have inside : entryOf (Hierarchy.build s).parents (Hierarchy.build s).levels
        (Hierarchy.build s).placements c ∈ (Hierarchy.build s).entries :=
      List.mem_map_of_mem (List.mem_filter.mpr ⟨member, active⟩)
    have searchable := all _ (walked.mem_iff.mpr inside)
    exact ⟨searchable.description, searchable.fqdn⟩
  · intro all e member
    obtain ⟨c, used, rfl⟩ := List.mem_map.mp (walked.mem_iff.mp member)
    obtain ⟨listed, active⟩ := List.mem_filter.mp used
    have searchable := all c listed active
    exact ⟨searchable.description, searchable.fqdn⟩

end CapabilityAtlas.Search

namespace CapabilityAtlas.Engine

open CapabilityAtlas.Hierarchy CapabilityAtlas.Search CapabilityAtlas.Text

variable {payload : Payload} {s : Snapshot}

def trimmed (query : String) : String := String.ofList (trim query.toList)

theorem queryText_text (query : String) : queryText (.text query) = .ok (trimmed query) := by
  unfold queryText
  by_cases empty : query = ""
  · subst empty
    rfl
  · rw [if_pos (by simp [Payload.isGiven, empty])]
    rfl

private theorem guarded_search (nodup : (activeIds s).Nodup) (maxHops : Int) (limits : Limits)
    (settings : Settings Float) (query : String) :
    GuardedBy ((start s maxHops limits settings).search (.text query))
      ((trimmed query).toList.length < limits.minQueryLength ∨ trimmed query = "" ∨
        ∀ c ∈ s.capabilities, isActive c → Searchable c) .absentMember := by
  have run : (start s maxHops limits settings).search (.text query) =
      rank limits ((Hierarchy.build s).walk.map Tree.entry) (trimmed query) := by
    rw [search, rankValue, queryText_text]
    rfl
  rw [run, ← forall_walk_searchable_iff nodup]
  exact guarded_rank limits _ (trimmed query)

/-- A search for a text gives a list unless the text is compared with a used capability whose
description or qualified name is given but no text; then a member of that value is missing. -/
theorem search_eq_ok_iff (accepted : Snapshot.ofPayload payload = .ok s) (maxHops : Int)
    (limits : Limits) (settings : Settings Float) (query : String) :
    ((∃ hits, (start s maxHops limits settings).search (.text query) = .ok hits) ↔
      (trimmed query).toList.length < limits.minQueryLength ∨ trimmed query = "" ∨
        ∀ c ∈ s.capabilities, isActive c → Searchable c) ∧
    ∀ fault, (start s maxHops limits settings).search (.text query) = .error fault →
      fault = .absentMember := by
  have guarded := guarded_search (nodup_activeIds accepted) maxHops limits settings query
  exact ⟨guarded.result_iff, fun fault => guarded.eq_of_error⟩

def describedPayload (description : Payload) : Payload :=
  .record [("nodes", .list [.record [("id", .text "c"), ("type", .text "capability"),
    ("usage_count", .int 1), ("description", description)]])]

theorem search_eq_ok_iff_of_described :
    ∃ s, Snapshot.ofPayload (describedPayload (.text "reads files")) = .ok s ∧
      ∃ hits, (start s 10 {}).search (.text " read ") = .ok hits := by
  obtain ⟨s, accepted⟩ : ∃ s, Snapshot.ofPayload (describedPayload (.text "reads files")) = .ok s :=
    ⟨_, rfl⟩
  refine ⟨s, accepted, ?_⟩
  refine (search_eq_ok_iff accepted 10 {} Settings.standard " read ").1.mpr (Or.inr (Or.inr ?_))
  obtain rfl := Except.ok.inj accepted
  intro c member _
  obtain rfl := List.mem_singleton.mp member
  decide

/-- A number as the description of a used capability makes a search for a word fail. -/
theorem not_search_eq_ok :
    ∃ s, Snapshot.ofPayload (describedPayload (.int 5)) = .ok s ∧
      (start s 10 {}).search (.text "read") = .error .absentMember := by
  obtain ⟨s, accepted⟩ : ∃ s, Snapshot.ofPayload (describedPayload (.int 5)) = .ok s := ⟨_, rfl⟩
  refine ⟨s, accepted, ?_⟩
  refine (guarded_search (nodup_activeIds accepted) 10 {} Settings.standard "read").failed ?_
  obtain rfl := Except.ok.inj accepted
  decide

end CapabilityAtlas.Engine
