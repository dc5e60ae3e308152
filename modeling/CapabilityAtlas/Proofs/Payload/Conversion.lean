import CapabilityAtlas.Payload.Conversion
import CapabilityAtlas.Proofs.Outcome

set_option autoImplicit false
set_option relaxedAutoImplicit false

/-!
What conversions of raw values hinge on. A text can be made of every value in which no whole number
has too many digits, a number of every value but a whole number beyond the largest binary one, and a
moment of every value but a time whose offset carries it out of the calendar.
-/

namespace CapabilityAtlas.Payload

open CapabilityAtlas.Numeral CapabilityAtlas.Calendar

mutual

/-- Whether no whole number inside a value has too many digits. -/
def isWritable : Payload → Bool
  | .int n => n.natAbs < Nat.pow 10 digitLimit
  | .list items => areWritable items
  | .record fields => holdWritable fields
  | _ => true

def areWritable : List Payload → Bool
  | [] => true
  | item :: rest => isWritable item && areWritable rest

def holdWritable : List (String × Payload) → Bool
  | [] => true
  | (_, value) :: rest => isWritable value && holdWritable rest

end

/-- Whether a value is no whole number beyond the largest binary one. -/
def isMeasurable : Payload → Bool
  | .int n => (ofInt? n).isSome
  | _ => true

/-- Whether a value is no time outside the calendar. -/
def isDatable : Payload → Bool
  | .text s => (IsoText.read (withOffset s)).all (fun written => written.instant?.isSome)
  | .stamp s => s.instant?.isSome
  | _ => true

private theorem hinges_integerDecimal (n : Int) :
    HingesOn (integerDecimal n) (n.natAbs < Nat.pow 10 digitLimit) := by
  unfold integerDecimal
  split
  · rename_i small
    exact (HingesOn.ok _).congr (iff_of_true trivial small)
  · rename_i large
    exact HingesOn.of_not rfl (by simp) large

mutual

theorem hinges_quoted : (v : Payload) → HingesOn v.quoted (v.isWritable = true)
  | .int n => (hinges_integerDecimal n).congr (by simp [isWritable])
  | .list items => (hinges_quotedItems items).map.congr (by simp [isWritable])
  | .record fields => (hinges_quotedFields fields).map.congr (by simp [isWritable])
  | .null | .bool _ | .float _ | .text _ | .stamp _ =>
    (HingesOn.ok _).congr (by simp [isWritable])

theorem hinges_quotedItems :
    (items : List Payload) → HingesOn (quotedItems items) (areWritable items = true)
  | [] => (HingesOn.ok _).congr (by simp [areWritable])
  | item :: rest =>
    ((hinges_quoted item).andThen fun _ => (hinges_quotedItems rest).map).congr
      (by simp [areWritable])

theorem hinges_quotedFields : (fields : List (String × Payload)) →
    HingesOn (quotedFields fields) (holdWritable fields = true)
  | [] => (HingesOn.ok _).congr (by simp [holdWritable])
  | (_, value) :: rest =>
    ((hinges_quoted value).andThen fun _ => (hinges_quotedFields rest).map).congr
      (by simp [holdWritable])

end

theorem hinges_spelled (v : Payload) : HingesOn v.spelled (v.isWritable = true) := by
  cases v with
  | text s => exact (HingesOn.ok s).congr (by simp [isWritable])
  | stamp s => exact (HingesOn.ok _).congr (by simp [isWritable])
  | null | bool | int | float | list | record => exact hinges_quoted _

theorem hinges_number? (v : Payload) : HingesOn v.number? (v.isMeasurable = true) := by
  cases v with
  | int n =>
    refine HingesOn.map ?_
    unfold binaryOfInt isMeasurable
    cases found : ofInt? n with
    | some x => exact (HingesOn.ok x).congr (by simp [found])
    | none => exact HingesOn.of_not rfl (by simp) (by simp [found])
  | null | bool | float | text | list | record | stamp =>
    exact (HingesOn.ok _).congr (by simp [isMeasurable])

theorem hinges_numberOr (fallback : Float) (v : Payload) :
    HingesOn (v.numberOr fallback) (v.isMeasurable = true) :=
  (hinges_number? v).map

private theorem hinges_instantOf (s : Stamp) :
    HingesOn (instantOf s) (s.instant?.isSome = true) := by
  unfold instantOf
  cases s.instant? with
  | some i => exact (HingesOn.ok _).congr (by simp)
  | none => exact HingesOn.of_not rfl (by simp) (by simp)

theorem hinges_moment? (v : Payload) : HingesOn v.moment? (v.isDatable = true) := by
  cases v with
  | text s =>
    simp only [moment?, isDatable]
    cases IsoText.read (withOffset s) with
    | some written => exact hinges_instantOf written
    | none => exact (HingesOn.ok _).congr (by simp)
  | stamp s =>
    simp only [moment?, isDatable]
    exact hinges_instantOf s
  | null | bool | int | float | list | record =>
    exact (HingesOn.ok _).congr (by simp [isDatable])

end CapabilityAtlas.Payload
