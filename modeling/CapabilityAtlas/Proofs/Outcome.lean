import CapabilityAtlas.Fault
import Mathlib.Data.List.Forall2

set_option autoImplicit false
set_option relaxedAutoImplicit false

/-!
Outcomes of readers. A reader of raw values may end in a result, in a rejection that names the place
and the defect, or in any other fault, which its caller does not expect. A conversion never rejects:
it hinges on a condition, under which it has a result and without which it ends in such a fault. A
step that can fail in one way only is guarded by its condition, and so is a loop of such steps.
-/

namespace CapabilityAtlas

/-- An outcome that callers expect: a result or a rejection. -/
def Orderly {α : Type} (outcome : Except Fault α) : Prop :=
  (∃ made, outcome = .ok made) ∨ ∃ place defect, outcome = .error (.rejected place defect)

/-- An outcome that is a result under a condition, and without it a fault but no rejection. -/
structure HingesOn {α : Type} (outcome : Except Fault α) (condition : Prop) : Prop where
  result_iff : (∃ made, outcome = .ok made) ↔ condition
  not_rejected : ∀ place defect, outcome ≠ .error (.rejected place defect)

variable {α β γ : Type} {first : Except Fault α} {next : α → Except Fault β} {p q : Prop}

theorem orderly_ok (made : α) : Orderly (.ok made) :=
  Or.inl ⟨made, rfl⟩

theorem orderly_rejected (place : Place) (defect : Defect) :
    Orderly (.error (.rejected place defect) : Except Fault α) :=
  Or.inr ⟨place, defect, rfl⟩

def Fault.isRejection : Fault → Bool
  | .rejected _ _ => true
  | _ => false

private theorem orderly_error_iff {fault : Fault} :
    Orderly (.error fault : Except Fault α) ↔ fault.isRejection := by
  cases fault <;> simp [Orderly, Fault.isRejection]

instance decidableOrderly : (outcome : Except Fault α) → Decidable (Orderly outcome)
  | .ok made => .isTrue (orderly_ok made)
  | .error _ => decidable_of_iff _ orderly_error_iff.symm

theorem orderly_bind_iff :
    Orderly (first >>= next) ↔
      Orderly first ∧ ∀ made, first = .ok made → Orderly (next made) := by
  cases first with
  | error fault => simp [Orderly, Bind.bind, Except.bind]
  | ok made => simp [Orderly, Bind.bind, Except.bind]

namespace HingesOn

theorem congr {outcome : Except Fault α} (hinges : HingesOn outcome p) (same : p ↔ q) :
    HingesOn outcome q :=
  ⟨hinges.result_iff.trans same, hinges.not_rejected⟩

theorem orderly_iff {outcome : Except Fault α} (hinges : HingesOn outcome p) :
    Orderly outcome ↔ p := by
  rw [← hinges.result_iff]
  constructor
  · rintro (made | ⟨place, defect, rejected⟩)
    · exact made
    · exact (hinges.not_rejected place defect rejected).elim
  · exact Or.inl

theorem ok (made : α) : HingesOn (.ok made) True :=
  ⟨by simp, by simp⟩

theorem of_not {outcome : Except Fault α} {fault : Fault} (failed : outcome = .error fault)
    (other : ∀ place defect, fault ≠ .rejected place defect) (absent : ¬ p) :
    HingesOn outcome p := by
  subst failed
  refine ⟨by simp [absent], fun place defect rejected => ?_⟩
  exact other place defect (Except.error.inj rejected)

/-- Of two steps the second hinges on what the first one gives. -/
theorem bind {condition : α → Prop} (one : HingesOn first p)
    (two : ∀ made, first = .ok made → HingesOn (next made) (condition made)) :
    HingesOn (first >>= next) (p ∧ ∀ made, first = .ok made → condition made) := by
  cases first with
  | error fault =>
    have failed : ¬ p := fun holds => by simpa using one.result_iff.mpr holds
    have run : (Except.error fault >>= next) = .error fault := rfl
    refine of_not run (fun place defect same => ?_) fun both => failed both.1
    exact one.not_rejected place defect (congrArg _ same)
  | ok made =>
    have holds : p := one.result_iff.mp ⟨made, rfl⟩
    refine (two made rfl).congr ?_
    simp [holds]

theorem andThen (one : HingesOn first p) (two : ∀ made, HingesOn (next made) q) :
    HingesOn (first >>= next) (p ∧ q) := by
  refine (one.bind fun made _ => two made).congr ?_
  refine and_congr_right fun holds => ?_
  obtain ⟨made, same⟩ := one.result_iff.mpr holds
  exact ⟨fun all => all made same, fun holds _ _ => holds⟩

theorem map {g : α → β} (one : HingesOn first p) :
    HingesOn (first >>= fun made => .ok (g made)) p :=
  (one.andThen fun made => ok (g made)).congr (iff_of_eq (and_true p))

theorem mapM {f : α → Except Fault β} {condition : α → Prop} (xs : List α)
    (each : ∀ x ∈ xs, HingesOn (f x) (condition x)) :
    HingesOn (xs.mapM f) (∀ x ∈ xs, condition x) := by
  induction xs with
  | nil => exact (ok []).congr (by simp)
  | cons x rest ih =>
    rw [List.mapM_cons]
    have later := ih fun y hy => each y (List.mem_cons_of_mem _ hy)
    have both := (each x List.mem_cons_self).andThen fun made =>
      later.map (g := fun others => made :: others)
    exact both.congr (List.forall_mem_cons).symm

end HingesOn

/-- An outcome that is a result under a condition, and without it one certain fault. -/
structure GuardedBy {α : Type} (outcome : Except Fault α) (condition : Prop) (fault : Fault) :
    Prop where
  result : condition → ∃ made, outcome = .ok made
  failed : ¬ condition → outcome = .error fault

namespace GuardedBy

variable {fault : Fault}

theorem ok (made : α) (holds : p) : GuardedBy (.ok made) p fault :=
  ⟨fun _ => ⟨made, rfl⟩, fun absent => (absent holds).elim⟩

theorem congr {outcome : Except Fault α} (guarded : GuardedBy outcome p fault) (same : p ↔ q) :
    GuardedBy outcome q fault :=
  ⟨fun holds => guarded.result (same.mpr holds), fun absent =>
    guarded.failed fun holds => absent (same.mp holds)⟩

private theorem andThen (one : GuardedBy first p fault)
    (two : ∀ made, GuardedBy (next made) q fault) :
    GuardedBy (first >>= next) (p ∧ q) fault := by
  by_cases holds : p
  · obtain ⟨made, rfl⟩ := one.result holds
    exact (two made).congr (iff_and_self.mpr fun _ => holds)
  · rw [one.failed holds]
    exact ⟨fun both => (holds both.1).elim, fun _ => rfl⟩

theorem map {g : α → β} (one : GuardedBy first p fault) :
    GuardedBy (first >>= fun made => .ok (g made)) p fault :=
  (one.andThen fun made => ok (g made) trivial).congr (iff_of_eq (and_true p))

theorem mapM {f : α → Except Fault β} {condition : α → Prop} (xs : List α)
    (each : ∀ x, GuardedBy (f x) (condition x) fault) :
    GuardedBy (xs.mapM f) (∀ x ∈ xs, condition x) fault := by
  induction xs with
  | nil => exact ok [] (by simp)
  | cons x rest ih =>
    rw [List.mapM_cons]
    have both := (each x).andThen fun made => ih.map (g := fun others => made :: others)
    exact both.congr (List.forall_mem_cons).symm

/-- In a loop every step is guarded, whatever the steps before it gave. -/
theorem foldlM {f : β → α → Except Fault β} {condition : α → Prop} (xs : List α) (start : β)
    (each : ∀ state x, GuardedBy (f state x) (condition x) fault) :
    GuardedBy (xs.foldlM f start) (∀ x ∈ xs, condition x) fault := by
  induction xs generalizing start with
  | nil => exact ok start (by simp)
  | cons x rest ih =>
    rw [List.foldlM_cons]
    exact ((each start x).andThen fun state => ih state).congr (List.forall_mem_cons).symm

theorem result_iff {outcome : Except Fault α} (guarded : GuardedBy outcome p fault) :
    (∃ made, outcome = .ok made) ↔ p := by
  refine ⟨fun ⟨made, run⟩ => ?_, guarded.result⟩
  by_contra absent
  rw [guarded.failed absent] at run
  simp at run

theorem eq_of_error {outcome : Except Fault α} {other : Fault} (guarded : GuardedBy outcome p fault)
    (run : outcome = .error other) : other = fault := by
  by_cases holds : p
  · obtain ⟨made, ended⟩ := guarded.result holds
    rw [ended] at run
    simp at run
  · rw [guarded.failed holds] at run
    exact (Except.error.inj run).symm

end GuardedBy

theorem mapM_eq_ok_iff {f : α → Except Fault β} {xs : List α} {ys : List β} :
    xs.mapM f = .ok ys ↔ List.Forall₂ (fun x y => f x = .ok y) xs ys := by
  induction xs generalizing ys with
  | nil => cases ys <;> simp [pure, Except.pure]
  | cons x rest ih =>
    rw [List.mapM_cons]
    constructor
    · intro run
      obtain ⟨y, made, run⟩ := Fault.ok_of_bind run
      obtain ⟨others, later, run⟩ := Fault.ok_of_bind run
      obtain rfl := Except.ok.inj run
      exact List.Forall₂.cons made (ih.mp later)
    · intro both
      cases both with
      | cons made later =>
        rw [made, ih.mpr later]
        rfl

theorem mapM_eq_ok_map {f : α → Except Fault β} {g : α → β} {xs : List α}
    (each : ∀ x ∈ xs, f x = .ok (g x)) : xs.mapM f = .ok (xs.map g) :=
  mapM_eq_ok_iff.mpr (List.forall₂_map_right_iff.mpr (List.forall₂_same.mpr each))

theorem foldlM_eq_ok {f : β → α → Except Fault β} {g : β → α → β} (xs : List α) (start : β)
    (each : ∀ state, ∀ x ∈ xs, f state x = .ok (g state x)) :
    xs.foldlM f start = .ok (xs.foldl g start) := by
  induction xs generalizing start with
  | nil => rfl
  | cons x rest ih =>
    rw [List.foldlM_cons, each start x List.mem_cons_self]
    exact ih (g start x) fun state y member => each state y (List.mem_cons_of_mem x member)

theorem exists_mapM_eq_ok {f : α → Except Fault β} {xs : List α}
    (each : ∀ x ∈ xs, ∃ y, f x = .ok y) : ∃ ys, xs.mapM f = .ok ys := by
  induction xs with
  | nil => exact ⟨[], rfl⟩
  | cons x rest ih =>
    obtain ⟨y, made⟩ := each x List.mem_cons_self
    obtain ⟨ys, later⟩ := ih fun z hz => each z (List.mem_cons_of_mem _ hz)
    exact ⟨y :: ys, mapM_eq_ok_iff.mpr (List.Forall₂.cons made (mapM_eq_ok_iff.mp later))⟩

theorem map_eq_of_mapM_eq_ok {f : α → Except Fault β} {xs : List α} {ys : List β} {g : α → γ}
    {k : β → γ} (run : xs.mapM f = .ok ys) (kept : ∀ x y, f x = .ok y → k y = g x) :
    ys.map k = xs.map g := by
  rw [mapM_eq_ok_iff] at run
  induction run with
  | nil => rfl
  | cons made later ih => rw [List.map_cons, List.map_cons, kept _ _ made, ih]

end CapabilityAtlas
