import CapabilityAtlas.Hierarchy.Containment
import Mathlib.Data.Nat.Find

set_option autoImplicit false
set_option relaxedAutoImplicit false

/-!
Climbing from id to id, where a partial function gives the next id above. A climb either ends or
comes to a circle, which it never leaves.
-/

namespace CapabilityAtlas.Hierarchy

def ascend (up : String → Option String) : Nat → String → Option String
  | 0, id => some id
  | n + 1, id => (up id).bind (ascend up n)

/-- Whether steps lead from an id back to it. -/
def OnCircle (up : String → Option String) (id : String) : Prop :=
  ∃ n, ascend up (n + 1) id = some id

/-- Whether the climb from an id ends. -/
def Grounded (up : String → Option String) (id : String) : Prop := ∃ n, ascend up n id = none

variable {up : String → Option String}

theorem ascend_of_eq_some {id parent : String} (h : up id = some parent) (n : Nat) :
    ascend up (n + 1) id = ascend up n parent := by
  simp [ascend, h]

theorem ascend_of_eq_none {id : String} (h : up id = none) (n : Nat) :
    ascend up (n + 1) id = none := by
  simp [ascend, h]

private theorem ascend_add (m n : Nat) (id : String) :
    ascend up (m + n) id = (ascend up m id).bind (ascend up n) := by
  induction m generalizing id with
  | zero => simp [ascend]
  | succ m ih =>
    rw [Nat.add_right_comm]
    cases h : up id with
    | none => rw [ascend_of_eq_none h, ascend_of_eq_none h, Option.bind_none]
    | some parent => rw [ascend_of_eq_some h, ascend_of_eq_some h, ih]

theorem ascend_trans {m n : Nat} {a b c : String} (hab : ascend up m a = some b)
    (hbc : ascend up n b = some c) : ascend up (m + n) a = some c := by
  rw [ascend_add, hab]
  exact hbc

theorem ascend_succ_last (n : Nat) (id : String) :
    ascend up (n + 1) id = (ascend up n id).bind up := by
  rw [ascend_add]
  congr 1
  funext a
  cases h : up a with
  | none => exact ascend_of_eq_none h 0
  | some parent => exact ascend_of_eq_some h 0

private theorem ascend_eq_none_of_le {m n : Nat} {id : String} (h : ascend up m id = none)
    (hle : m ≤ n) :
    ascend up n id = none := by
  obtain ⟨k, rfl⟩ := Nat.exists_eq_add_of_le hle
  rw [ascend_add, h, Option.bind_none]

theorem grounded_of_eq_none {id : String} (h : up id = none) : Grounded up id :=
  ⟨1, ascend_of_eq_none h 0⟩

theorem grounded_iff_of_eq_some {id parent : String} (h : up id = some parent) :
    Grounded up id ↔ Grounded up parent := by
  constructor
  · rintro ⟨n, hn⟩
    cases n with
    | zero => simp [ascend] at hn
    | succ n => exact ⟨n, by rwa [ascend_of_eq_some h] at hn⟩
  · rintro ⟨n, hn⟩
    exact ⟨n + 1, by rwa [ascend_of_eq_some h]⟩

theorem Grounded.top {id : String} (h : Grounded up id) :
    ∃ n top, ascend up n id = some top ∧ up top = none := by
  obtain ⟨n, hn⟩ := h
  induction n generalizing id with
  | zero => simp [ascend] at hn
  | succ n ih =>
    cases hup : up id with
    | none => exact ⟨0, id, rfl, hup⟩
    | some parent =>
      rw [ascend_of_eq_some hup] at hn
      obtain ⟨m, top, hm, htop⟩ := ih hn
      exact ⟨m + 1, top, by rwa [ascend_of_eq_some hup], htop⟩

private theorem ascend_mul_of_period {n : Nat} {id : String} (h : ascend up n id = some id)
    (k : Nat) :
    ascend up (n * k) id = some id := by
  induction k with
  | zero => rfl
  | succ k ih =>
    rw [Nat.mul_succ]
    exact ascend_trans ih h

/-- Whatever lies above an id on a circle lies on it too, and the climb comes back from there. -/
theorem OnCircle.ascend_back {c d : String} {n : Nat} (h : OnCircle up c)
    (hd : ascend up n c = some d) : ∃ m, ascend up (m + 1) d = some c := by
  obtain ⟨p, hp⟩ := h
  have around := ascend_mul_of_period hp (n + 1)
  have longer : (p + 1) * (n + 1) = n + (p * (n + 1) + 1) := by
    rw [Nat.succ_mul]
    omega
  rw [longer, ascend_add, hd] at around
  exact ⟨_, around⟩

theorem OnCircle.of_ascend {c d : String} {n : Nat} (h : OnCircle up c)
    (hd : ascend up n c = some d) : OnCircle up d := by
  obtain ⟨m, hm⟩ := h.ascend_back hd
  refine ⟨m + n, ?_⟩
  rw [Nat.add_right_comm]
  exact ascend_trans hm hd

theorem OnCircle.not_grounded {c : String} (h : OnCircle up c) : ¬ Grounded up c := by
  rintro ⟨n, hn⟩
  obtain ⟨p, hp⟩ := h
  have around := ascend_mul_of_period hp n
  have hle : n ≤ (p + 1) * n := Nat.le_mul_of_pos_left n (Nat.succ_pos p)
  rw [ascend_eq_none_of_le hn hle] at around
  simp at around

theorem OnCircle.exists_up {c : String} (h : OnCircle up c) : ∃ d, up c = some d := by
  obtain ⟨n, hn⟩ := h
  cases hup : up c with
  | none =>
    rw [ascend_of_eq_none hup] at hn
    simp at hn
  | some d => exact ⟨d, rfl⟩

theorem OnCircle.exists_below {c : String} (h : OnCircle up c) :
    ∃ d, up d = some c ∧ OnCircle up d := by
  obtain ⟨n, hn⟩ := id h
  rw [ascend_succ_last] at hn
  obtain ⟨d, hd, hup⟩ := Option.bind_eq_some_iff.mp hn
  exact ⟨d, hup, h.of_ascend hd⟩

section Depth

variable (grounded : ∀ id, Grounded up id)

/-- The number of ids on the climb from an id. -/
def depth (id : String) : Nat := Nat.find (grounded id)

theorem depth_of_eq_none {id : String} (h : up id = none) : depth grounded id = 1 := by
  refine (Nat.find_eq_iff (grounded id)).mpr ⟨ascend_of_eq_none h 0, ?_⟩
  intro n hn
  obtain rfl : n = 0 := by omega
  simp [ascend]

theorem depth_of_eq_some {id parent : String} (h : up id = some parent) :
    depth grounded id = depth grounded parent + 1 := by
  refine (Nat.find_eq_iff (grounded id)).mpr ⟨?_, ?_⟩
  · rw [ascend_of_eq_some h]
    exact Nat.find_spec (grounded parent)
  · intro n hn
    cases n with
    | zero => simp [ascend]
    | succ n =>
      rw [ascend_of_eq_some h]
      exact Nat.find_min (grounded parent) (Nat.lt_of_succ_lt_succ hn)

theorem depth_ascend {n : Nat} {id above : String} (h : ascend up n id = some above) :
    depth grounded id = depth grounded above + n := by
  induction n generalizing id with
  | zero =>
    obtain rfl : id = above := by simpa [ascend] using h
    rfl
  | succ n ih =>
    cases hup : up id with
    | none =>
      rw [ascend_of_eq_none hup] at h
      simp at h
    | some parent =>
      rw [ascend_of_eq_some hup] at h
      rw [depth_of_eq_some grounded hup, ih h]
      omega

end Depth

end CapabilityAtlas.Hierarchy
