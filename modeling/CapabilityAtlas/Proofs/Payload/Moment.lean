import CapabilityAtlas.Proofs.Calendar.IsoText
import CapabilityAtlas.Proofs.Calendar.Stamp
import CapabilityAtlas.Record.Node

set_option autoImplicit false
set_option relaxedAutoImplicit false

/-!
A time and its text are the same moment, and both fail where universal time cannot express it. So a
tool that is written and read again was last used when it was before.
-/

namespace CapabilityAtlas

open CapabilityAtlas.Calendar

/-- Whether a stamp has no offset or one of whole minutes. -/
def Calendar.Stamp.HasMinuteOffset (s : Stamp) : Prop := ∀ o ∈ s.offset, 60000000 ∣ o

/-- The last use of a tool as it is written: as text, or as null if there is none. -/
def Tool.writtenLastUse (t : Tool) : Payload :=
  (t.lastUsed.map (fun i => Payload.text i.isoText)).getD .null

namespace Payload

variable {s : Stamp} {i : Instant}

private theorem withOffset_eq_self {text : String} (other : ∀ c ∈ text.toList, c ≠ 'Z') :
    withOffset text = text := by
  rw [withOffset, IsoText.flatMap_eq_self fun c member => if_neg (other c member),
    String.ofList_toList]

/-- A written stamp is read as the stamp itself. -/
theorem moment?_isoText (valid : s.Valid) (readable : s.HasReadableOffset) :
    moment? (.text (s.isoText "T")) = moment? (.stamp s) := by
  have other : ∀ c ∈ (s.isoText "T").toList, c ≠ 'Z' :=
    IsoText.forall_mem_isoText (p := (· ≠ 'Z')) (fun _ => Numeral.digit_ne rfl) (by simp) s
  simp only [moment?, withOffset_eq_self other, IsoText.read_isoText valid readable]

private theorem moment?_isoText_instant (i : Instant) :
    moment? (.text i.isoText) = .ok (some i) := by
  have readable : i.stamp.HasReadableOffset := by
    rintro o ⟨⟩
    exact Or.inl rfl
  rw [Instant.isoText, moment?_isoText i.valid_stamp readable, moment?, instantOf,
    i.instant?_stamp]

theorem moment?_writtenLastUse (t : Tool) : t.writtenLastUse.moment? = .ok t.lastUsed := by
  rw [Tool.writtenLastUse]
  cases t.lastUsed with
  | none => rfl
  | some i => exact moment?_isoText_instant i

private theorem moment?_stamp_of_inCalendar (inside : s.InCalendar) :
    ∃ i, moment? (.stamp s) = .ok (some i) ∧ i.stamp.IsUniversalFormOf s := by
  cases found : s.instant? with
  | none => exact absurd inside (Stamp.instant?_eq_none_iff.mp found)
  | some i =>
    exact ⟨i, by rw [moment?, instantOf, found], Stamp.isUniversalFormOf_iff.mpr ⟨i, found, rfl⟩⟩

private theorem moment?_stamp_of_not_inCalendar (outside : ¬ s.InCalendar) :
    moment? (.stamp s) = .error .overflow := by
  rw [moment?, instantOf, Stamp.instant?_eq_none_iff.mpr outside]

/-- A time with an offset of whole minutes, or none, and its text are the same moment: the one that
the time denotes, in universal time, or a failure exactly if that lies outside the years 1 to 9999.
In particular the last use of a tool is read as it was written. -/
theorem moment?_text_eq_moment?_stamp (valid : s.Valid) (minutes : s.HasMinuteOffset) :
    moment? (.text (s.isoText "T")) = moment? (.stamp s) ∧
      (s.InCalendar → ∃ i, moment? (.stamp s) = .ok (some i) ∧ i.stamp.IsUniversalFormOf s) ∧
      (¬ s.InCalendar → moment? (.stamp s) = .error .overflow) ∧
      ∀ t : Tool, t.writtenLastUse.moment? = .ok t.lastUsed := by
  have readable : s.HasReadableOffset := by
    intro o zone
    have whole := minutes o zone
    omega
  exact ⟨moment?_isoText valid readable, moment?_stamp_of_inCalendar,
    moment?_stamp_of_not_inCalendar, moment?_writtenLastUse⟩

/-- An early hour in the east, where it is the first of March. -/
def earlyMarch : Stamp :=
  { date := ⟨2024, 3, 1⟩, clock := ⟨0, 15, 0, 250⟩, offset := some 19800000000 }

/-- The last hour of the calendar in the west. -/
def lastHour : Stamp :=
  { date := ⟨9999, 12, 31⟩, clock := ⟨23, 30, 0, 0⟩, offset := some (-2700000000) }

theorem moment?_text_of_leapDay_of_lastHour :
    earlyMarch.isoText "T" = "2024-03-01T00:15:00.000250+05:30" ∧
      lastHour.isoText "T" = "9999-12-31T23:30:00-00:45" ∧
      (∃ i, moment? (.text (earlyMarch.isoText "T")) = .ok (some i) ∧
        i.isoText = "2024-02-29T18:45:00.000250+00:00") ∧
      moment? (.text (lastHour.isoText "T")) = .error .overflow := by
  have march := moment?_text_eq_moment?_stamp (s := earlyMarch)
    ⟨by decide, by decide, by rintro o ⟨⟩; decide⟩ (by rintro o ⟨⟩; decide)
  have last := moment?_text_eq_moment?_stamp (s := lastHour)
    ⟨by decide, by decide, by rintro o ⟨⟩; decide⟩ (by rintro o ⟨⟩; decide)
  refine ⟨by decide +kernel, by decide +kernel, ?_, ?_⟩
  · obtain ⟨i, read, form⟩ := march.2.1 (by unfold Stamp.InCalendar; decide +kernel)
    refine ⟨i, march.1.trans read, ?_⟩
    have count : earlyMarch.ticks = 63844829100000250 := by decide +kernel
    obtain ⟨ticks, inCalendar⟩ := i
    obtain rfl : ticks = 63844829100000250 :=
      Int.ofNat.inj ((Instant.ticks_stamp _).symm.trans (form.ticks.trans count))
    change (Instant.mk 63844829100000250 (by decide +kernel)).isoText = _
    decide +kernel
  · exact last.1.trans (last.2.2.1 (by unfold Stamp.InCalendar; decide +kernel))

end Payload

end CapabilityAtlas
