import CapabilityAtlas.Scalar
import Mathlib
import Mathlib.Data.Prod.Lex
import Mathlib.Order.Basic

set_option autoImplicit false
set_option relaxedAutoImplicit false

/-!
Comparing binary numbers. All of them but the undefined one stand in one line, by the sign, the
exponent and the mantissa in the model that the core library gives them.
-/

namespace CapabilityAtlas.Numeral

open Float.Model (UnpackedFloat)

/-- Where a number stands among the others; nothing is said of the undefined one. -/
def position : UnpackedFloat → Int ×ₗ Int ×ₗ Int
  | .infinity .negative => toLex (-2, toLex (0, 0))
  | .finite .negative m e _ => toLex (-1, toLex (-e, -m))
  | .zero _ => toLex (0, toLex (0, 0))
  | .finite .positive m e _ => toLex (1, toLex (e, m))
  | .infinity .positive => toLex (2, toLex (0, 0))
  | .notANumber => toLex (0, toLex (0, 0))

private theorem then_compare_eq_lt_iff (e f : Int) (m n : Nat) :
    (compare e f).then (compare m n) = .lt ↔
      toLex (e, (m : Int)) < toLex (f, (n : Int)) := by
  rw [Ordering.then_eq_lt, compare_lt_iff_lt, compare_eq_iff_eq, compare_lt_iff_lt,
    Prod.Lex.toLex_lt_toLex, Int.ofNat_lt]

private theorem then_compare_eq_gt_iff (e f : Int) (m n : Nat) :
    (compare e f).then (compare m n) = .gt ↔
      toLex (-e, -(m : Int)) < toLex (-f, -(n : Int)) := by
  rw [Ordering.then_eq_gt, compare_gt_iff_gt, compare_eq_iff_eq, compare_gt_iff_gt,
    Prod.Lex.toLex_lt_toLex, Int.neg_lt_neg_iff, Int.neg_lt_neg_iff, Int.ofNat_lt, Int.neg_inj]

section Lex

variable {a b : Int} (x y : Int ×ₗ Int)

private theorem lt_eq_lt_iff_of_lt (less : a < b) :
    some Ordering.lt = some .lt ↔ toLex (a, x) < toLex (b, y) :=
  iff_of_true rfl (Prod.Lex.toLex_lt_toLex.mpr (Or.inl less))

private theorem gt_eq_lt_iff_of_lt (less : b < a) :
    some Ordering.gt = some .lt ↔ toLex (a, x) < toLex (b, y) :=
  iff_of_false (by decide) (Prod.Lex.toLex_lt_toLex.mpr (Or.inl less) : toLex (b, y) < _).asymm

private theorem toLex_lt_toLex_iff_snd : toLex (a, x) < toLex (a, y) ↔ x < y := by
  rw [Prod.Lex.toLex_lt_toLex, or_iff_right (lt_irrefl a), and_iff_right rfl]

end Lex

private theorem compare_eq_lt_iff {u v : UnpackedFloat} (first : u ≠ .notANumber)
    (second : v ≠ .notANumber) :
    UnpackedFloat.compare u v = some .lt ↔ position u < position v := by
  cases u with
  | notANumber => exact absurd rfl first
  | infinity s =>
    cases v with
    | notANumber => exact absurd rfl second
    | infinity t => cases s <;> cases t <;> decide
    | zero t => cases s <;> cases t <;> decide
    | finite t n f _ =>
      cases s with
      | positive => cases t <;> exact gt_eq_lt_iff_of_lt _ _ (by decide)
      | negative => cases t <;> exact lt_eq_lt_iff_of_lt _ _ (by decide)
  | zero s =>
    cases v with
    | notANumber => exact absurd rfl second
    | infinity t => cases s <;> cases t <;> decide
    | zero t => cases s <;> cases t <;> decide
    | finite t n f _ =>
      cases t with
      | positive => exact lt_eq_lt_iff_of_lt _ _ (by decide)
      | negative => exact gt_eq_lt_iff_of_lt _ _ (by decide)
  | finite s m e _ =>
    cases v with
    | notANumber => exact absurd rfl second
    | infinity t =>
      cases t with
      | positive => cases s <;> exact lt_eq_lt_iff_of_lt _ _ (by decide)
      | negative => cases s <;> exact gt_eq_lt_iff_of_lt _ _ (by decide)
    | zero t =>
      cases s with
      | positive => exact gt_eq_lt_iff_of_lt _ _ (by decide)
      | negative => exact lt_eq_lt_iff_of_lt _ _ (by decide)
    | finite t n f _ =>
      cases s with
      | positive =>
        cases t with
        | positive =>
          have inner := then_compare_eq_lt_iff e f m n
          exact Option.some_inj.trans (inner.trans (toLex_lt_toLex_iff_snd _ _).symm)
        | negative => exact gt_eq_lt_iff_of_lt _ _ (by decide)
      | negative =>
        cases t with
        | positive => exact lt_eq_lt_iff_of_lt _ _ (by decide)
        | negative =>
          have inner := Ordering.swap_eq_lt.trans (then_compare_eq_gt_iff e f m n)
          exact Option.some_inj.trans (inner.trans (toLex_lt_toLex_iff_snd _ _).symm)

def IsNumber (x : Float) : Prop := x.toModel.unpack ≠ .notANumber

theorem lt_iff_position_lt {x y : Float} (first : IsNumber x) (second : IsNumber y) :
    x < y ↔ position x.toModel.unpack < position y.toModel.unpack := by
  rw [← compare_eq_lt_iff first second]
  change decide (UnpackedFloat.lt x.toModel.unpack y.toModel.unpack = true) = true ↔ _
  rw [decide_eq_true_iff, UnpackedFloat.lt, beq_iff_eq]

end CapabilityAtlas.Numeral

/-!
Operations on binary numbers, in the model that the core library gives them. Rounding never gives
the undefined number, so only undefined, infinite or zero numbers have an undefined sum, product or
quotient. A positive sum of numbers below one never leaves the range, however many they are: once
its exponent is one, what is added is less than half of its last place and is rounded away.
-/

namespace CapabilityAtlas.Numeral

open Float.Model (UnpackedFloat Format totalExponent)
open Float.Model.UnpackedFloat

section Shift

private theorem mantissa_shiftRight (m : ExtendedMantissa) (k : Nat) :
    (m >>> k).mantissa = m.mantissa / 2 ^ k := by
  induction k with
  | zero => rw [pow_zero, Nat.div_one]; rfl
  | succ k ih =>
    have step : (m >>> (k + 1)).mantissa = (m >>> k).mantissa / 2 := rfl
    rw [step, ih, Nat.div_div_eq_div_mul, pow_succ]

private theorem roundBit_shiftRight_succ (m : ExtendedMantissa) (k : Nat) :
    (m >>> (k + 1)).roundBit = (m.mantissa / 2 ^ k % 2 != 0) := by
  have step : (m >>> (k + 1)).roundBit = ((m >>> k).mantissa % 2 != 0) := rfl
  rw [step, mantissa_shiftRight]

private theorem roundedMantissa_cases (m : ExtendedMantissa) : m.roundedMantissa = m.mantissa ∨
    m.roundBit = true ∧ m.roundedMantissa = m.mantissa + 1 := by
  obtain ⟨mantissa, roundBit, stickyBit⟩ := m
  cases roundBit with
  | false => left; cases stickyBit <;> rfl
  | true =>
    cases stickyBit with
    | true => exact Or.inr ⟨rfl, rfl⟩
    | false =>
      have half : (ExtendedMantissa.mk mantissa true false).roundedMantissa =
          mantissa + mantissa % 2 := rfl
      rcases Nat.mod_two_eq_zero_or_one mantissa with even | odd
      · exact Or.inl (by rw [half, even]; rfl)
      · exact Or.inr ⟨rfl, by rw [half, odd]⟩

private theorem targetExponent_binary64 (total : Int) :
    Format.binary64.targetExponent total = max (total - 53) (-1074) := rfl

variable {M j : Nat} {e : Int}

private theorem shiftToTargetExponent_eq (bits : M.log2 = 52 + j) (scale : -1000 ≤ e)
    (accuracy : Accuracy) : shiftToTargetExponent Format.binary64 M e accuracy =
      (ExtendedMantissa.ofMantissaAndAccuracy M accuracy >>> j, e + j) := by
  have amount : (Format.binary64.targetExponent (totalExponent M e) - e).toNat = j := by
    rw [targetExponent_binary64, totalExponent, bits]
    omega
  rw [shiftToTargetExponent, shiftToExponent, amount]

private theorem roundWithAccuracy_ne_notANumber (spec : Format) (s : Sign) (m : Nat) (e : Int)
    (accuracy : Accuracy) : roundWithAccuracy spec s m e accuracy ≠ .notANumber := by
  unfold roundWithAccuracy
  dsimp only
  split <;> exact UnpackedFloat.noConfusion

private theorem roundWithAccuracy_eq_finite {s : Sign} {accuracy : Accuracy} {f g : Int}
    {first last : ExtendedMantissa}
    (cut : shiftToTargetExponent Format.binary64 M e accuracy = (first, f))
    (carried : shiftToTargetExponent Format.binary64 first.roundedMantissa f .exact = (last, g))
    (positive : 0 < last.mantissa) :
    roundWithAccuracy Format.binary64 s M e accuracy = .finite s last.mantissa g positive := by
  rw [roundWithAccuracy, cut]
  simp only [carried]
  rw [dif_neg positive.ne']

/-- A mantissa that is cut to its full length keeps it when it is rounded. The exponent grows only
if all kept bits are set, and the first dropped one. -/
private theorem exists_roundWithAccuracy_eq {s : Sign} {accuracy : Accuracy} {f : Int}
    {x : ExtendedMantissa} (cut : shiftToTargetExponent Format.binary64 M e accuracy = (x, f))
    (low : 2 ^ 52 ≤ x.mantissa) (high : x.mantissa < 2 ^ 53) (scale : -1000 ≤ f) :
    ∃ m g, ∃ positive : 0 < m,
      roundWithAccuracy Format.binary64 s M e accuracy = .finite s m g positive ∧
      2 ^ 52 ≤ m ∧ m < 2 ^ 53 ∧
      (g = f ∨ g = f + 1 ∧ x.mantissa = 2 ^ 53 - 1 ∧ x.roundBit = true) := by
  have rounded := roundedMantissa_cases x
  by_cases full : x.roundedMantissa < 2 ^ 53
  · have fits : x.roundedMantissa.log2 = 52 + 0 :=
      (Nat.log2_eq_iff (by omega)).mpr ⟨by omega, by omega⟩
    have carried := shiftToTargetExponent_eq fits scale .exact
    have same : (ExtendedMantissa.ofMantissaAndAccuracy x.roundedMantissa .exact >>> 0).mantissa =
        x.roundedMantissa := rfl
    refine ⟨_, _, by omega, roundWithAccuracy_eq_finite cut carried _, ?_, ?_, Or.inl ?_⟩
    · rw [same]
      omega
    · rwa [same]
    · exact add_zero f
  · obtain ⟨dropped, grown⟩ := rounded.resolve_left fun kept => full (kept ▸ high)
    have outgrown : x.roundedMantissa = 2 ^ 53 := by omega
    have bits : x.roundedMantissa.log2 = 52 + 1 := by rw [outgrown, Nat.log2_two_pow]
    have carried := shiftToTargetExponent_eq bits scale .exact
    have half : (ExtendedMantissa.ofMantissaAndAccuracy x.roundedMantissa .exact >>> 1).mantissa =
        2 ^ 52 := by
      rw [mantissa_shiftRight, outgrown]
      norm_num [ExtendedMantissa.ofMantissaAndAccuracy]
    refine ⟨_, _, by omega, roundWithAccuracy_eq_finite cut carried _, half.ge, ?_,
      Or.inr ⟨rfl, by omega, dropped⟩⟩
    rw [half]
    norm_num

private theorem exists_round_eq (bits : M.log2 = 53 + j) (scale : -1000 ≤ e) :
    ∃ m f, ∃ nonzero : 0 < m,
      UnpackedFloat.round Format.binary64 .positive M e = .finite .positive m f nonzero ∧
      2 ^ 52 ≤ m ∧ m < 2 ^ 53 ∧
      (f = e + j + 1 ∨ f = e + j + 2 ∧ M / 2 ^ (j + 1) = 2 ^ 53 - 1 ∧ M / 2 ^ j % 2 = 1) := by
  have outgrown : M.log2 = 52 + (j + 1) := by rw [bits]; omega
  have positive : M ≠ 0 := by
    rintro rfl
    rw [Nat.log2_zero] at bits
    omega
  obtain ⟨least, most⟩ := (Nat.log2_eq_iff positive).mp outgrown
  have kept : 2 ^ 52 ≤ M / 2 ^ (j + 1) ∧ M / 2 ^ (j + 1) < 2 ^ 53 := by
    rw [Nat.le_div_iff_mul_le (Nat.two_pow_pos _), Nat.div_lt_iff_lt_mul (Nat.two_pow_pos _),
      ← pow_add, ← pow_add]
    exact ⟨least, by rwa [add_right_comm] at most⟩
  have unchanged : decreaseExponent M e
      (Format.binary64.targetExponent (totalExponent M e)) = (M, e) := by
    have unshifted : (e - Format.binary64.targetExponent (totalExponent M e)).toNat = 0 := by
      rw [targetExponent_binary64, totalExponent, bits]
      omega
    rw [decreaseExponent, unshifted, Nat.shiftLeft_zero, Nat.cast_zero, Int.sub_zero]
  have cut := shiftToTargetExponent_eq outgrown scale .exact
  generalize shifted : ExtendedMantissa.ofMantissaAndAccuracy M .exact >>> (j + 1) = x at cut
  have mantissa : x.mantissa = M / 2 ^ (j + 1) := by rw [← shifted, mantissa_shiftRight]; rfl
  have dropped : x.roundBit = (M / 2 ^ j % 2 != 0) := by
    rw [← shifted, roundBit_shiftRight_succ]
    rfl
  rw [← mantissa] at kept
  obtain ⟨m, f, nonzero, rounded, low, high, exponent⟩ :=
    exists_roundWithAccuracy_eq cut kept.1 kept.2 (s := .positive) (by omega)
  rw [mantissa, dropped, bne_iff_ne, ne_eq, Nat.mod_two_not_eq_zero] at exponent
  rw [UnpackedFloat.round, unchanged]
  refine ⟨m, f, nonzero, rounded, low, high, ?_⟩
  rcases exponent with same | ⟨grown, all, first⟩
  · exact Or.inl (by omega)
  · exact Or.inr ⟨by omega, all, first⟩

end Shift

section Packing

private theorem unpack_packedInfinity (s : Sign) :
    unpack Format.binary64 (packedInfinity Format.binary64 s) = .infinity s := by
  cases s <;> rfl

private theorem unpack_ne_notANumber {b : BitVec Format.binary64.numBits}
    (exponent : unpackExponent b ≠ -1#_) : unpack Format.binary64 b ≠ .notANumber := by
  unfold UnpackedFloat.unpack
  dsimp only
  rw [if_neg exponent]
  split
  · split <;> exact UnpackedFloat.noConfusion
  · exact UnpackedFloat.noConfusion

private theorem unpack_pack_ne_notANumber {u : UnpackedFloat} (number : u ≠ .notANumber) :
    (Float.Model.pack u).unpack ≠ .notANumber := by
  change unpack Format.binary64 (pack Format.binary64 u) ≠ .notANumber
  cases u with
  | notANumber => exact absurd rfl number
  | infinity s =>
    rw [pack, unpack_packedInfinity]
    exact UnpackedFloat.noConfusion
  | zero s => cases s <;> exact unpack_ne_notANumber (by decide)
  | finite s m e _ =>
    unfold UnpackedFloat.pack
    dsimp only
    split_ifs with beyond normal
    · rw [unpack_packedInfinity]
      exact UnpackedFloat.noConfusion
    · refine unpack_ne_notANumber ?_
      rw [unpackExponent_packComponents, ne_eq, ← BitVec.toNat_inj, BitVec.toNat_ofNat]
      change ¬ _ % 2 ^ 11 = 2047
      change ¬ 2 ^ 11 ≤ _ at beyond
      omega
    · exact unpack_ne_notANumber (by rw [unpackExponent_packComponents]; decide)

variable {m : Nat} {e : Int}

private theorem exponentBias_binary64 : Format.binary64.exponentBias = 1023 := rfl

private theorem pack_positive (nonzero : 0 < m) (low : 2 ^ 52 ≤ m) (high : m < 2 ^ 53)
    (most : e ≤ 971) :
    pack Format.binary64 (.finite .positive m e nonzero) =
      packComponents Format.binary64 .positive (BitVec.ofNat 11 (e + 1075).toNat)
        (BitVec.ofNat 52 m) := by
  have bits : m.log2 = 52 := (Nat.log2_eq_iff nonzero.ne').mpr ⟨low, high⟩
  have whole : m.log2 + 1 = Format.binary64.mantissaBits := by rw [bits]; rfl
  have within : ¬ 2 ^ 11 ≤ (e + 1075).toNat + 1 := by omega
  have biased : e + Format.binary64.exponentBias + (52 : ℕ) = e + 1075 := by
    rw [exponentBias_binary64]
    omega
  unfold UnpackedFloat.pack
  dsimp only
  rw [biased, if_neg within, if_pos whole]

private theorem toNat_append_fraction (low : 2 ^ 52 ≤ m) (high : m < 2 ^ 53) :
    (1#1 ++ BitVec.ofNat 52 m).toNat = m := by
  have fraction : (BitVec.ofNat 52 m).toNat = m - 2 ^ 52 := by
    rw [BitVec.toNat_ofNat]
    omega
  have joined := Nat.shiftLeft_add_eq_or_of_lt (b := m - 2 ^ 52) (i := 52) (by omega) 1
  rw [BitVec.toNat_append, fraction, BitVec.toNat_one (by decide), ← joined, Nat.one_shiftLeft]
  omega

/-- A positive number with a whole mantissa, if it is in range, is kept by its bits. -/
private theorem unpack_pack_positive (nonzero : 0 < m) (low : 2 ^ 52 ≤ m) (high : m < 2 ^ 53)
    (least : -1074 ≤ e) (most : e ≤ 971) :
    (Float.Model.pack (.finite .positive m e nonzero)).unpack = .finite .positive m e nonzero := by
  have exponent : (BitVec.ofNat 11 (e + 1075).toNat).toNat = (e + 1075).toNat := by
    rw [BitVec.toNat_ofNat, Nat.mod_eq_of_lt (by omega)]
  have large : BitVec.ofNat 11 (e + 1075).toNat ≠ -1#11 := by
    rw [ne_eq, ← BitVec.toNat_inj, exponent]
    change ¬ _ = 2047
    omega
  have small : BitVec.ofNat 11 (e + 1075).toNat ≠ 0#11 := by
    rw [ne_eq, ← BitVec.toNat_inj, exponent]
    change ¬ _ = 0
    omega
  change unpack Format.binary64 (pack Format.binary64 (.finite .positive m e nonzero)) = _
  rw [pack_positive nonzero low high most]
  unfold UnpackedFloat.unpack
  simp only [unpackExponent_packComponents, unpackMantissa_packComponents,
    unpackSign_packComponents]
  rw [if_neg large, if_neg small, UnpackedFloat.finite.injEq]
  refine ⟨rfl, toNat_append_fraction low high, ?_⟩
  rw [exponent, exponentBias_binary64]
  omega

end Packing

section Sum

/-- Positive numbers with a whole mantissa and an exponent between two bounds. -/
inductive Within (least most : Int) : UnpackedFloat → Prop
  | intro {m : Nat} {e : Int} (nonzero : 0 < m) (low : 2 ^ 52 ≤ m) (high : m < 2 ^ 53)
      (above : least ≤ e) (below : e ≤ most) : Within least most (.finite .positive m e nonzero)

variable {u v : UnpackedFloat} {m n : Nat} {e : Int}

theorem Within.unpack_pack {least most : Int} (within : Within least most u)
    (above : -1074 ≤ least) (below : most ≤ 971) : (Float.Model.pack u).unpack = u := by
  obtain ⟨positive, low, high, least', most'⟩ := within
  exact unpack_pack_positive positive low high (by omega) (by omega)

private theorem add_positive (nonzero : 0 < m) (nonzero' : 0 < n) (above : -53 ≤ e) :
    add Format.binary64 (.finite .positive m e nonzero) (.finite .positive n (-53) nonzero') =
      UnpackedFloat.round Format.binary64 .positive (m * 2 ^ (e + 53).toNat + n) (-53) := by
  have smaller : min e (-53) = -53 := min_eq_right above
  have aligned : (decreaseExponent m e (-53)).1 = m * 2 ^ (e + 53).toNat := Nat.shiftLeft_eq _ _
  have kept : (decreaseExponent n (-53) (-53)).1 = n := rfl
  have positive : compare (((m * 2 ^ (e + 53).toNat : ℕ) : Int) + n) 0 = .gt :=
    compare_gt_iff_gt.mpr (by omega)
  rw [UnpackedFloat.add]
  dsimp only
  rw [smaller, aligned, kept, UnpackedFloat.normalize]
  dsimp only [Sign.apply]
  rw [positive, ← Nat.cast_add, Int.toNat_natCast]

/-- A sum stays below two to the fifty-four if what is added is below one: with the greatest
exponent that is allowed, it is less than half of the last place of the sum. -/
private theorem within_add (sum : Within (-53) 1 u) (term : Within (-53) (-53) v) :
    Within (-53) 1 (add Format.binary64 u v) := by
  obtain @⟨m, e, nonzero, low, high, above, below⟩ := sum
  obtain @⟨n, f, nonzero', low', high', above', below'⟩ := term
  obtain rfl : f = -53 := by omega
  rw [add_positive nonzero nonzero' above]
  have scale : (e + 53).toNat ≤ 54 := by omega
  generalize (e + 53).toNat = k at scale
  have grown : m ≤ m * 2 ^ k := Nat.le_mul_of_pos_right m (Nat.two_pow_pos k)
  have most : k ≤ 53 → m * 2 ^ k ≤ (2 ^ 53 - 1) * 2 ^ 53 := fun small =>
    Nat.mul_le_mul (by omega) (Nat.pow_le_pow_right (by decide) small)
  have capped : m * 2 ^ k ≤ (2 ^ 53 - 1) * 2 ^ 54 :=
    Nat.mul_le_mul (by omega) (Nat.pow_le_pow_right (by decide) scale)
  have positive : m * 2 ^ k + n ≠ 0 := by omega
  obtain ⟨j, bits⟩ : ∃ j, (m * 2 ^ k + n).log2 = 53 + j :=
    Nat.exists_eq_add_of_le ((Nat.le_log2 positive).mpr (by omega))
  have few : 53 + j < 107 := bits ▸ (Nat.log2_lt positive).mpr (by omega)
  obtain ⟨r, f, nonzero'', rounded, low'', high'', exponent⟩ :=
    exists_round_eq bits (e := -53) (by decide)
  rw [rounded]
  refine .intro nonzero'' low'' high'' ?_ ?_
  · omega
  · rcases exponent with plain | ⟨carried, all, first⟩
    · omega
    · by_contra beyond
      obtain rfl : j = 53 := by omega
      rcases Nat.lt_or_ge k 54 with small | large
      · have least := most (by omega)
        omega
      · obtain rfl : k = 54 := by omega
        omega

theorem unpack_add (x y : Float) : (x + y).toModel.unpack =
    (Float.Model.pack (add Format.binary64 x.toModel.unpack y.toModel.unpack)).unpack := rfl

theorem Within.add {x y : Float} (sum : Within (-53) 1 x.toModel.unpack)
    (term : Within (-53) (-53) y.toModel.unpack) : Within (-53) 1 (x + y).toModel.unpack := by
  have added := within_add sum term
  rw [unpack_add, added.unpack_pack (by decide) (by decide)]
  exact added

theorem Within.zero_add {x y : Float} (zero : x.toModel.unpack = .zero .positive)
    (term : Within (-53) (-53) y.toModel.unpack) : Within (-53) 1 (x + y).toModel.unpack := by
  rw [unpack_add, zero]
  generalize y.toModel.unpack = v at term ⊢
  have same : UnpackedFloat.add Format.binary64 (.zero .positive) v = v := by
    obtain ⟨-, -, -, -, -⟩ := term
    rfl
  rw [same, term.unpack_pack (by decide) (by decide)]
  obtain ⟨positive, low, high, above, below⟩ := term
  exact .intro positive low high above (below.trans (by decide))

end Sum

section Number

variable {spec : Format} {u : UnpackedFloat} {s : Sign} {m : Nat} {e : Int}

private theorem normalize_ne_notANumber (m : Int) :
    UnpackedFloat.normalize spec m e s ≠ .notANumber := by
  unfold UnpackedFloat.normalize
  split
  · exact roundWithAccuracy_ne_notANumber _ _ _ _ _
  · exact UnpackedFloat.noConfusion
  · exact roundWithAccuracy_ne_notANumber _ _ _ _ _

private theorem mul_finite_ne_notANumber (number : u ≠ .notANumber) (positive : 0 < m) :
    mul spec u (.finite s m e positive) ≠ .notANumber := by
  cases u with
  | notANumber => exact absurd rfl number
  | infinity t => exact UnpackedFloat.noConfusion
  | zero t => exact UnpackedFloat.noConfusion
  | finite t n f _ => exact roundWithAccuracy_ne_notANumber _ _ _ _ _

private theorem div_finite_ne_notANumber (number : u ≠ .notANumber) (positive : 0 < m) :
    div spec (.finite s m e positive) u ≠ .notANumber := by
  cases u with
  | notANumber => exact absurd rfl number
  | infinity t => exact UnpackedFloat.noConfusion
  | zero t => exact UnpackedFloat.noConfusion
  | finite t n f _ => exact roundWithAccuracy_ne_notANumber _ _ _ _ _

private theorem ofScientific_ne_notANumber : ofScientific spec m e ≠ .notANumber := by
  unfold UnpackedFloat.ofScientific
  split_ifs
  · exact UnpackedFloat.noConfusion
  · exact UnpackedFloat.noConfusion
  · exact UnpackedFloat.noConfusion
  · exact mul_finite_ne_notANumber UnpackedFloat.noConfusion _
  · exact div_finite_ne_notANumber UnpackedFloat.noConfusion _

theorem isNumber_ofNat (n : Nat) : IsNumber (Float.ofNat n) := by
  change IsNumber (Float.ofScientific n false 0)
  unfold Float.ofScientific
  split
  · obtain ⟨nonzero, one⟩ : ∃ nonzero, (Float.ofBits 0x3FF0000000000000).toModel.unpack =
        .finite .positive (2 ^ 52) (-52) nonzero := ⟨by decide, rfl⟩
    change (Float.Model.pack (mul Format.binary64 n.toUInt64.toFloat.toModel.unpack
      (Float.ofBits 0x3FF0000000000000).toModel.unpack)).unpack ≠ .notANumber
    rw [one]
    refine unpack_pack_ne_notANumber (mul_finite_ne_notANumber ?_ nonzero)
    exact unpack_pack_ne_notANumber (normalize_ne_notANumber _)
  · exact unpack_pack_ne_notANumber ofScientific_ne_notANumber

theorem Within.isNumber {x : Float} {least most : Int}
    (within : Within least most x.toModel.unpack) : IsNumber x := by
  unfold IsNumber
  generalize x.toModel.unpack = u at within ⊢
  obtain ⟨-, -, -, -, -⟩ := within
  exact UnpackedFloat.noConfusion

theorem isNumber_div {x y : Float} {least most : Int} (within : Within least most x.toModel.unpack)
    (number : IsNumber y) : IsNumber (x / y) := by
  change (Float.Model.pack (div Format.binary64 x.toModel.unpack y.toModel.unpack)).unpack ≠
    .notANumber
  refine unpack_pack_ne_notANumber ?_
  generalize x.toModel.unpack = u at within ⊢
  obtain ⟨positive, -, -, -, -⟩ := within
  exact div_finite_ne_notANumber number positive

end Number

end CapabilityAtlas.Numeral
