import CapabilityAtlas.Proofs.Numeral.Rounding
import CapabilityAtlas.Proofs.Search.Match

set_option autoImplicit false
set_option relaxedAutoImplicit false

/-!
Scores can be compared. Binary numbers stand in no line, for the undefined one is not comparable
with anything, but no score is undefined: a mean divides a sum that never leaves the range, and the
sum is not zero.
-/

namespace CapabilityAtlas.Search

open CapabilityAtlas.Numeral

variable [WordDistance] {α : Type}

/-- A value that some query scores against some text. -/
def IsScore [Add α] [Div α] [NatCast α] (a : α) : Prop :=
  ∃ target query, scoreNormal? target query = some a

/-- Numbers whose scores stand in one line. -/
class OrderedScores (α : Type) [Add α] [Div α] [NatCast α] [LT α] : Prop where
  exists_place : ∃ (β : Type) (_ : LinearOrder β) (place : α → β),
    ∀ a b, IsScore a → IsScore b → (a < b ↔ place a < place b)

instance orderedScoresOfLinearOrder [Add α] [Div α] [NatCast α] [LinearOrder α] :
    OrderedScores α :=
  ⟨α, inferInstance, id, fun _ _ _ _ => Iff.rfl⟩

section Line

variable [Add α] [Div α] [NatCast α] [LT α] [OrderedScores α] {a b c : α}

theorem IsScore.lt_asymm (first : IsScore a) (second : IsScore b) (less : a < b) : ¬ b < a := by
  obtain ⟨β, _, place, ordered⟩ := OrderedScores.exists_place (α := α)
  rw [ordered _ _ first second] at less
  rw [ordered _ _ second first]
  exact less.asymm

theorem IsScore.lt_of_not_lt_of_lt (first : IsScore a) (second : IsScore b) (third : IsScore c)
    (below : ¬ b < a) (less : b < c) : a < c := by
  obtain ⟨β, _, place, ordered⟩ := OrderedScores.exists_place (α := α)
  rw [ordered _ _ second first, not_lt] at below
  rw [ordered _ _ second third] at less
  rw [ordered _ _ first third]
  exact below.trans_lt less

end Line

section Binary

omit [WordDistance] in
private theorem within_score (r : Rung) : Within (-53) (-53) (r.score : Float).toModel.unpack := by
  have unpacked : ∀ m nonzero,
      (r.score : Float).toModel.unpack = .finite .positive m (-53) nonzero →
      2 ^ 52 ≤ m → m < 2 ^ 53 → Within (-53) (-53) (r.score : Float).toModel.unpack := by
    intro m nonzero unpacked low high
    rw [unpacked]
    exact .intro nonzero low high le_rfl le_rfl
  cases r with
  | contained => exact unpacked 8106479329266893 (by decide) rfl (by decide) (by decide)
  | affix => exact unpacked 6305039478318694 (by decide) rfl (by decide) (by decide)
  | typo => exact unpacked 4503599627370496 (by decide) rfl (by decide) (by decide)

omit [WordDistance] in
private theorem within_foldl (rungs : List Rung) {start : Float}
    (within : Within (-53) 1 start.toModel.unpack) :
    Within (-53) 1
      ((rungs.map Rung.score).foldl (fun sum score => sum + score) start).toModel.unpack := by
  induction rungs generalizing start with
  | nil => exact within
  | cons r rungs ih => exact ih (within.add (within_score r))

omit [WordDistance] in
private theorem isNumber_mean {rungs : List Rung} (nonempty : rungs ≠ []) :
    IsNumber (mean (rungs.map Rung.score)) := by
  obtain ⟨r, rest, rfl⟩ := List.exists_cons_of_ne_nil nonempty
  have first : Within (-53) 1 (((0 : Nat) : Float) + r.score).toModel.unpack :=
    Within.zero_add rfl (within_score r)
  exact isNumber_div (within_foldl rest first) (isNumber_ofNat _)

private theorem isNumber_of_isScore {a : Float} (scored : IsScore a) : IsNumber a := by
  obtain ⟨target, query, scored⟩ := scored
  unfold scoreNormal? at scored
  split_ifs at scored with _ _ _ wordless
  · obtain rfl := Option.some.inj scored
    exact isNumber_ofNat 1
  · obtain rfl := Option.some.inj scored
    exact (within_score .contained).isNumber
  · obtain ⟨rungs, found, rfl⟩ := Option.map_eq_some_iff.mp scored
    refine isNumber_mean ?_
    rintro rfl
    rw [mapM_eq_ite] at found
    obtain ⟨w, counts⟩ := List.isEmpty_eq_false_iff_exists_mem.mp (Bool.eq_false_iff.mpr wordless)
    split_ifs at found with all
    have listed := List.filterMap_eq_nil_iff.mp (Option.some.inj found) w counts
    have here := List.all_eq_true.mp all w counts
    rw [listed] at here
    exact Bool.false_ne_true here

end Binary

instance orderedScoresOfBinary : OrderedScores Float :=
  ⟨_, inferInstance, fun x => position x.toModel.unpack, fun _ _ first second =>
    lt_iff_position_lt (isNumber_of_isScore first) (isNumber_of_isScore second)⟩

end CapabilityAtlas.Search
