import CapabilityAtlas.Proofs.Record.DistinctIds

set_option autoImplicit false
set_option relaxedAutoImplicit false

/-!
How often a capability has been used. The numbers that are read of a record are finite, so a count
is either positive or at most zero, and no capability is left between the used and the unused ones.
-/

namespace CapabilityAtlas

open CapabilityAtlas.Numeral
open Fault (ok_of_bind)
open Float.Model (UnpackedFloat)

private theorem not_le_zero_iff_unpacked {x : UnpackedFloat} (finite : x.isFinite) :
    ¬ x.le (.zero .positive) ↔ UnpackedFloat.lt (.zero .positive) x := by
  cases x with
  | infinity sign => exact absurd finite Bool.false_ne_true
  | notANumber => exact absurd finite Bool.false_ne_true
  | zero sign =>
    cases sign with
    | negative => decide
    | positive => decide
  | finite sign mantissa exponent positive =>
    cases sign with
    | negative =>
      have le : UnpackedFloat.le (.finite .negative mantissa exponent positive)
          (.zero .positive) = true := rfl
      have lt : UnpackedFloat.lt (.zero .positive)
          (.finite .negative mantissa exponent positive) = false := rfl
      rw [le, lt]
      decide
    | positive =>
      have le : UnpackedFloat.le (.finite .positive mantissa exponent positive)
          (.zero .positive) = false := rfl
      have lt : UnpackedFloat.lt (.zero .positive)
          (.finite .positive mantissa exponent positive) = true := rfl
      rw [le, lt]
      decide

private theorem not_le_zero_iff {x : Float} (finite : x.isFinite) : ¬ x ≤ 0 ↔ 0 < x := by
  have le : x ≤ 0 ↔ x.toModel.unpack.le (.zero .positive) := decide_eq_true_iff
  have lt : 0 < x ↔ UnpackedFloat.lt (.zero .positive) x.toModel.unpack := decide_eq_true_iff
  rw [le, lt]
  exact not_le_zero_iff_unpacked finite

private theorem isFinite_of_ofInt? {n : Int} {x : Float} (read : ofInt? n = some x) :
    x.isFinite := by
  simp only [ofInt?] at read
  split at read
  · rename_i finite
    exact Option.some.inj read ▸ finite
  · simp at read

namespace Payload

private theorem isFinite_of_number? {value : Payload} {x : Float}
    (read : value.number? = .ok (some x)) :
    x.isFinite := by
  cases value with
  | int n =>
    obtain ⟨y, converted, same⟩ := ok_of_bind read
    obtain rfl := Option.some.inj (Except.ok.inj same)
    unfold binaryOfInt at converted
    split at converted
    · rename_i z whole
      exact Except.ok.inj converted ▸ isFinite_of_ofInt? whole
    · simp at converted
  | float y =>
    have kept : (if y.isFinite then some y else none) = some x := Except.ok.inj read
    split at kept
    · rename_i finite
      exact Option.some.inj kept ▸ finite
    · simp at kept
  | text s =>
    have kept : (readFloat? s).filter Float.isFinite = some x := Except.ok.inj read
    exact (Option.filter_eq_some_iff.mp kept).2
  | _ => simp [number?] at read

private theorem isFinite_of_numberOr {fallback : Float} (finite : fallback.isFinite)
    {value : Payload} {x : Float} (read : value.numberOr fallback = .ok x) : x.isFinite := by
  obtain ⟨found, number, same⟩ := ok_of_bind read
  obtain rfl := Except.ok.inj same
  cases found with
  | none => exact finite
  | some y => exact isFinite_of_number? number

end Payload

private theorem isFinite_usageCount {fields : Fields} {c : Capability}
    (made : Capability.ofFields fields = .ok c) : c.usageCount.isFinite := by
  obtain ⟨_, _, made⟩ := ok_of_bind made
  iterate 4 obtain ⟨_, _, made⟩ := ok_of_bind made
  obtain ⟨usage, read, made⟩ := ok_of_bind made
  iterate 2 obtain ⟨_, _, made⟩ := ok_of_bind made
  have same : usage = c.usageCount := congrArg Capability.usageCount (Except.ok.inj made)
  exact same ▸ Payload.isFinite_of_numberOr rfl read

namespace Snapshot

theorem Built.ofFields_of_mem {seen : List String} {records : List (NodeKind × Fields)}
    {tools : List Tool} {capabilities : List Capability}
    (built : Built seen records tools capabilities) :
    ∀ c ∈ capabilities, ∃ fields, Capability.ofFields fields = .ok c := by
  induction built with
  | done => simp
  | skip _ _ _ ih => exact ih
  | tool _ _ _ ih => exact ih
  | capability _ made _ ih => exact List.forall_mem_cons.mpr ⟨⟨_, made⟩, ih⟩

/-- A capability of an accepted snapshot has a positive usage count or one that is at most zero. -/
theorem usageCount_not_le_zero_iff {payload : Payload} {s : Snapshot}
    (accepted : ofPayload payload = .ok s) {c : Capability} (member : c ∈ s.capabilities) :
    ¬ c.usageCount ≤ 0 ↔ 0 < c.usageCount := by
  obtain ⟨records, built⟩ := exists_built_of_ofPayload accepted
  obtain ⟨fields, made⟩ := built.ofFields_of_mem c member
  exact not_le_zero_iff (isFinite_usageCount made)

end Snapshot

end CapabilityAtlas
