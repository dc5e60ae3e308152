import CapabilityAtlas.Record.Snapshot
import Mathlib.Data.List.Nodup

set_option autoImplicit false
set_option relaxedAutoImplicit false

/-!
The ids of an accepted snapshot. A node whose id has been seen is skipped, so no two nodes of a
snapshot share an id.
-/

namespace CapabilityAtlas.Snapshot

open Fault (ok_of_bind)

def recordId (fields : Fields) : Except Fault String := do (← Edge.required fields "id").spelled

theorem recordId_of_tool {fields : Fields} {t : Tool} (h : Tool.ofFields fields = .ok t) :
    recordId fields = .ok t.id := by
  obtain ⟨value, required, h⟩ := ok_of_bind h
  obtain ⟨id, spelled, h⟩ := ok_of_bind h
  iterate 8 obtain ⟨_, _, h⟩ := ok_of_bind h
  have same : id = t.id := congrArg Tool.id (Except.ok.inj h)
  rw [recordId, required, ← same]
  exact spelled

theorem recordId_of_capability {fields : Fields} {c : Capability}
    (h : Capability.ofFields fields = .ok c) : recordId fields = .ok c.id := by
  obtain ⟨_, _, h⟩ := ok_of_bind h
  obtain ⟨value, required, h⟩ := ok_of_bind h
  obtain ⟨id, spelled, h⟩ := ok_of_bind h
  iterate 5 obtain ⟨_, _, h⟩ := ok_of_bind h
  have same : id = c.id := congrArg Capability.id (Except.ok.inj h)
  rw [recordId, required, ← same]
  exact spelled

/-- How nodes are built from records: one whose id has been seen is skipped, and the id of any other
counts as seen from then on. -/
inductive Built :
    List String → List (NodeKind × Fields) → List Tool → List Capability → Prop
  | done {seen : List String} : Built seen [] [] []
  | skip {seen : List String} {kind : NodeKind} {fields : Fields}
      {rest : List (NodeKind × Fields)} {tools : List Tool} {capabilities : List Capability}
      {id : String} : recordId fields = .ok id → id ∈ seen →
      Built seen rest tools capabilities → Built seen ((kind, fields) :: rest) tools capabilities
  | tool {seen : List String} {fields : Fields} {rest : List (NodeKind × Fields)}
      {tools : List Tool} {capabilities : List Capability} {t : Tool} :
      t.id ∉ seen → Tool.ofFields fields = .ok t → Built (t.id :: seen) rest tools capabilities →
      Built seen ((.tool, fields) :: rest) (t :: tools) capabilities
  | capability {seen : List String} {fields : Fields} {rest : List (NodeKind × Fields)}
      {tools : List Tool} {capabilities : List Capability} {c : Capability} :
      c.id ∉ seen → Capability.ofFields fields = .ok c →
      Built (c.id :: seen) rest tools capabilities →
      Built seen ((.capability, fields) :: rest) tools (c :: capabilities)

section Built

variable {seen : List String} {records rest : List (NodeKind × Fields)} {tools : List Tool}
  {capabilities : List Capability} {fields : Fields} {id : String}

theorem buildNodes_cons_of_mem (kind : NodeKind) (spelled : recordId fields = .ok id)
    (known : id ∈ seen) : buildNodes seen ((kind, fields) :: rest) = buildNodes seen rest := by
  obtain ⟨value, required, spelled⟩ := ok_of_bind spelled
  simp [buildNodes, required, spelled, bind, Except.bind, known]

theorem buildNodes_cons_of_not_mem (kind : NodeKind) (spelled : recordId fields = .ok id)
    (unseen : id ∉ seen) : buildNodes seen ((kind, fields) :: rest) =
      match kind with
      | .tool => Tool.ofFields fields >>= fun t => buildNodes (id :: seen) rest >>= fun made =>
        .ok (t :: made.1, made.2)
      | .capability => Capability.ofFields fields >>= fun c =>
        buildNodes (id :: seen) rest >>= fun made => .ok (made.1, c :: made.2) := by
  obtain ⟨value, required, spelled⟩ := ok_of_bind spelled
  have new : ¬ seen.contains id := fun known => unseen (List.contains_iff_mem.mp known)
  simp only [buildNodes, required, spelled, bind, Except.bind, if_neg new]
  cases kind <;> rfl

theorem built_of_buildNodes (run : buildNodes seen records = .ok (tools, capabilities)) :
    Built seen records tools capabilities := by
  induction records generalizing seen tools capabilities with
  | nil =>
    obtain ⟨rfl, rfl⟩ := Prod.mk.inj (Except.ok.inj run)
    exact .done
  | cons record rest ih =>
    obtain ⟨kind, fields⟩ := record
    obtain ⟨value, required, spelled⟩ := ok_of_bind run
    obtain ⟨id, spelled, -⟩ := ok_of_bind spelled
    have mine : recordId fields = .ok id := by
      rw [recordId, required]
      exact spelled
    by_cases known : id ∈ seen
    · rw [buildNodes_cons_of_mem kind mine known] at run
      exact .skip mine known (ih run)
    · rw [buildNodes_cons_of_not_mem kind mine known] at run
      cases kind with
      | tool =>
        obtain ⟨t, made, run⟩ := ok_of_bind run
        obtain ⟨later, others, both⟩ := ok_of_bind run
        obtain ⟨rfl, rfl⟩ := Prod.mk.inj (Except.ok.inj both)
        obtain rfl : id = t.id := Except.ok.inj (mine.symm.trans (recordId_of_tool made))
        exact .tool known made (ih others)
      | capability =>
        obtain ⟨c, made, run⟩ := ok_of_bind run
        obtain ⟨later, others, both⟩ := ok_of_bind run
        obtain ⟨rfl, rfl⟩ := Prod.mk.inj (Except.ok.inj both)
        obtain rfl : id = c.id := Except.ok.inj (mine.symm.trans (recordId_of_capability made))
        exact .capability known made (ih others)

theorem Built.buildNodes_eq_ok (built : Built seen records tools capabilities) :
    buildNodes seen records = .ok (tools, capabilities) := by
  induction built with
  | done => rfl
  | skip spelled known _ ih => rw [buildNodes_cons_of_mem _ spelled known, ih]
  | tool unseen made _ ih =>
    rw [buildNodes_cons_of_not_mem _ (recordId_of_tool made) unseen]
    simp only [made, ih, bind, Except.bind]
  | capability unseen made _ ih =>
    rw [buildNodes_cons_of_not_mem _ (recordId_of_capability made) unseen]
    simp only [made, ih, bind, Except.bind]

/-- No id of built nodes has been seen before, and none occurs twice. -/
theorem Built.fresh (built : Built seen records tools capabilities) :
    (tools.map Tool.id ++ capabilities.map Capability.id).Nodup ∧
      ∀ id ∈ tools.map Tool.id ++ capabilities.map Capability.id, id ∉ seen := by
  induction built with
  | done => simp
  | skip _ _ _ ih => exact ih
  | tool unseen _ _ ih =>
    obtain ⟨nodup, fresh⟩ := ih
    simp only [List.map_cons, List.cons_append, List.nodup_cons, List.mem_cons]
    refine ⟨⟨fun member => fresh _ member List.mem_cons_self, nodup⟩, ?_⟩
    rintro other (rfl | member)
    · exact unseen
    · exact fun before => fresh other member (List.mem_cons_of_mem _ before)
  | capability unseen _ _ ih =>
    obtain ⟨nodup, fresh⟩ := ih
    simp only [List.map_cons, List.nodup_middle, List.nodup_cons, List.mem_append,
      List.mem_cons] at fresh ⊢
    refine ⟨⟨fun member => fresh _ member (Or.inl rfl), nodup⟩, ?_⟩
    rintro other (member | rfl | member)
    · exact fun before => fresh other (Or.inl member) (Or.inr before)
    · exact unseen
    · exact fun before => fresh other (Or.inr member) (Or.inr before)

end Built

theorem exists_built_of_ofPayload {payload : Payload} {s : Snapshot}
    (accepted : ofPayload payload = .ok s) :
    ∃ records, Built [] records s.tools s.capabilities := by
  cases payload with
  | record fields =>
    obtain ⟨_, _, h⟩ := ok_of_bind accepted
    obtain ⟨_, _, h⟩ := ok_of_bind h
    obtain ⟨records, _, h⟩ := ok_of_bind h
    obtain ⟨_, _, h⟩ := ok_of_bind h
    obtain ⟨⟨tools, capabilities⟩, run, h⟩ := ok_of_bind h
    obtain ⟨_, _, h⟩ := ok_of_bind h
    obtain rfl := Except.ok.inj h
    exact ⟨records, built_of_buildNodes run⟩
  | _ => simp [ofPayload] at accepted

/-- The nodes of an accepted snapshot have distinct ids. -/
theorem nodup_ids {payload : Payload} {s : Snapshot} (accepted : ofPayload payload = .ok s) :
    (s.tools.map Tool.id ++ s.capabilities.map Capability.id).Nodup := by
  obtain ⟨records, built⟩ := exists_built_of_ofPayload accepted
  exact built.fresh.1

end CapabilityAtlas.Snapshot
