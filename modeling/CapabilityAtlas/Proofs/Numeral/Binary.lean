import CapabilityAtlas.Numeral.Binary
import Mathlib.Algebra.Order.Field.Power
import Mathlib.Algebra.Ring.Int.Parity
import Mathlib.Data.Rat.Floor
import Mathlib.Tactic.FieldSimp
import Mathlib.Tactic.Linarith
import Mathlib.Tactic.NormNum

set_option autoImplicit false
set_option relaxedAutoImplicit false

/-!
Binary numbers against the model that the core library gives them: the exact value is the one that
the model unpacks, and cutting off its fraction leaves the floor of a positive one.
-/

namespace CapabilityAtlas.Numeral

open Float.Model (UnpackedFloat Format)

def Exact.ofUnpacked : UnpackedFloat → Exact
  | .infinity sign => .infinite (sign == .negative)
  | .notANumber => .undefined
  | .zero sign => .finite (sign == .negative) 0 (-1074)
  | .finite sign mantissa exponent _ => .finite (sign == .negative) mantissa exponent

theorem Exact.ofUnpacked_finite (sign : UnpackedFloat.Sign) (mantissa : Nat) (exponent : Int)
    (positive : 0 < mantissa) : Exact.ofUnpacked (.finite sign mantissa exponent positive) =
      .finite (sign == .negative) mantissa exponent := rfl

section Fields

variable (x : Float)

private abbrev packed : BitVec Format.binary64.numBits := x.toModel.toBits.toBitVec

private theorem toNat_unpackExponent : (UnpackedFloat.unpackExponent (packed x)).toNat =
    x.toBits.toNat / Nat.pow 2 52 % Nat.pow 2 11 := by
  have field : (UnpackedFloat.unpackExponent (packed x)).toNat =
      x.toBits.toNat >>> 52 % 2 ^ 11 := rfl
  rw [field, Nat.shiftRight_eq_div_pow]
  rfl

private theorem toNat_unpackMantissa :
    (UnpackedFloat.unpackMantissa (packed x)).toNat = x.toBits.toNat % Nat.pow 2 52 := rfl

private theorem ofBitVec_unpackSign :
    (UnpackedFloat.Sign.ofBitVec (UnpackedFloat.unpackSign (packed x)) == .negative) =
      decide (Nat.pow 2 63 ≤ x.toBits.toNat) := by
  have field : (UnpackedFloat.unpackSign (packed x)).toNat = x.toBits.toNat >>> 63 % 2 ^ 1 := rfl
  have below : x.toBits.toNat < 2 ^ 64 := x.toBits.toNat_lt
  have clear : UnpackedFloat.unpackSign (packed x) = 0#1 ↔ x.toBits.toNat < 2 ^ 63 := by
    rw [← BitVec.toNat_inj, field, Nat.shiftRight_eq_div_pow]
    change _ = 0 ↔ _
    omega
  unfold UnpackedFloat.Sign.ofBitVec
  split
  · rename_i unset
    have small : ¬ Nat.pow 2 63 ≤ x.toBits.toNat := Nat.not_le.mpr (clear.mp unset)
    rw [decide_eq_false small]
    rfl
  · rename_i set
    have large : Nat.pow 2 63 ≤ x.toBits.toNat := Nat.not_lt.mp (set ∘ clear.mpr)
    rw [decide_eq_true large]
    rfl

end Fields

/-- The fields of the bits hold the value that the model unpacks. -/
theorem ofBinary_eq (x : Float) : Exact.ofBinary x = Exact.ofUnpacked x.toModel.unpack := by
  have scale := toNat_unpackExponent x
  have fraction := toNat_unpackMantissa x
  have sign := ofBitVec_unpackSign x
  have full : UnpackedFloat.unpackExponent (packed x) = -1#_ ↔
      x.toBits.toNat / Nat.pow 2 52 % Nat.pow 2 11 = 2047 := by
    rw [← BitVec.toNat_inj, scale]
    exact Iff.rfl
  have least : UnpackedFloat.unpackExponent (packed x) = 0#_ ↔
      x.toBits.toNat / Nat.pow 2 52 % Nat.pow 2 11 = 0 := by
    rw [← BitVec.toNat_inj, scale]
    exact Iff.rfl
  have blank : UnpackedFloat.unpackMantissa (packed x) = 0#_ ↔
      x.toBits.toNat % Nat.pow 2 52 = 0 := by
    rw [← BitVec.toNat_inj, fraction]
    exact Iff.rfl
  unfold Exact.ofBinary
  dsimp only
  by_cases hfull : x.toBits.toNat / Nat.pow 2 52 % Nat.pow 2 11 = 2047
  · rw [if_pos hfull]
    have special : x.toModel.unpack = if UnpackedFloat.unpackMantissa (packed x) = 0#_ then
        .infinity (.ofBitVec (UnpackedFloat.unpackSign (packed x))) else .notANumber :=
      if_pos (full.mpr hfull)
    rw [special]
    by_cases hnone : x.toBits.toNat % Nat.pow 2 52 = 0
    · rw [if_pos hnone, if_pos (blank.mpr hnone), ← sign]
      rfl
    · rw [if_neg hnone, if_neg (blank.not.mpr hnone)]
      rfl
  · rw [if_neg hfull]
    by_cases hleast : x.toBits.toNat / Nat.pow 2 52 % Nat.pow 2 11 = 0
    · rw [if_pos hleast]
      by_cases hnone : x.toBits.toNat % Nat.pow 2 52 = 0
      · have zero : x.toModel.unpack = .zero (.ofBitVec (UnpackedFloat.unpackSign (packed x))) :=
          (if_neg (full.not.mpr hfull)).trans
            ((if_pos (least.mpr hleast)).trans (dif_pos (blank.mpr hnone)))
        rw [zero, ← sign, hnone]
        rfl
      · have subnormal : x.toModel.unpack = .finite _ _ _ _ :=
          (if_neg (full.not.mpr hfull)).trans
            ((if_pos (least.mpr hleast)).trans (dif_neg (blank.not.mpr hnone)))
        rw [subnormal, Exact.ofUnpacked_finite, sign, fraction, scale, hleast]
        rfl
    · have normal : x.toModel.unpack = .finite _ _ _ _ :=
        (if_neg (full.not.mpr hfull)).trans (if_neg (least.not.mpr hleast))
      rw [if_neg hleast, normal, Exact.ofUnpacked_finite, sign, scale]
      -- A normal number has one bit more than its fraction field holds.
      have whole : Nat.pow 2 52 + x.toBits.toNat % Nat.pow 2 52 =
          (1#1 ++ UnpackedFloat.unpackMantissa (packed x)).toNat := by
        have small : x.toBits.toNat % Nat.pow 2 52 < 2 ^ 52 := Nat.mod_lt _ (by decide)
        rw [BitVec.toNat_append, fraction]
        exact Nat.shiftLeft_add_eq_or_of_lt small 1
      rw [whole]
      rfl

theorem exists_exact_iff (x : Float) :
    (∃ negative mantissa exponent, Exact.ofBinary x = .finite negative mantissa exponent) ↔
      x.isFinite := by
  have finite : x.isFinite = x.toModel.unpack.isFinite := rfl
  rw [ofBinary_eq, finite]
  cases x.toModel.unpack with
  | finite sign mantissa exponent nonzero => exact iff_of_true ⟨_, mantissa, exponent, rfl⟩ rfl
  | zero sign => exact iff_of_true ⟨_, 0, -1074, rfl⟩ rfl
  | infinity sign => exact iff_of_false (by rintro ⟨_, _, _, ⟨⟩⟩) Bool.false_ne_true
  | notANumber => exact iff_of_false (by rintro ⟨_, _, _, ⟨⟩⟩) Bool.false_ne_true

theorem truncated?_finite (mantissa : Nat) (exponent : Int) :
    (Exact.finite false mantissa exponent).truncated? = some ⌊(mantissa * 2 ^ exponent : ℚ)⌋ := by
  cases exponent with
  | ofNat e =>
    rw [Exact.truncated?, signed, if_neg Bool.false_ne_true, Int.ofNat_eq_natCast, zpow_natCast]
    have whole : (mantissa * 2 ^ e : ℚ) = ((mantissa * 2 ^ e : ℕ) : ℤ) := by push_cast; rfl
    rw [whole, Int.floor_intCast]
    rfl
  | negSucc e =>
    rw [Exact.truncated?, signed, if_neg Bool.false_ne_true, zpow_negSucc, ← div_eq_mul_inv]
    have quotient := Rat.floor_natCast_div_natCast mantissa (2 ^ (e + 1))
    rw [Nat.cast_pow, Nat.cast_ofNat] at quotient
    rw [quotient]
    rfl

end CapabilityAtlas.Numeral

/-!
The rational value behind a binary number. Rounding it to some decimals gives the nearest number
that has only these, and of two that are as near the one whose last digit is even.
-/

namespace CapabilityAtlas.Numeral

/-- The value of a finite number; any other counts as zero. -/
def Exact.value : Exact → ℚ
  | .finite negative mantissa exponent => (if negative then -1 else 1) * (mantissa * 2 ^ exponent)
  | .infinite _ | .undefined => 0

/-- Whether no whole number is nearer, and an odd one not even as near. -/
structure IsNearestEven (q : ℚ) (n : ℤ) : Prop where
  near : |q - n| ≤ 1 / 2
  tie : |q - n| = 1 / 2 → Even n

namespace IsNearestEven

variable {q : ℚ} {m n : ℤ}

private theorem self (n : ℤ) : IsNearestEven n n := by
  constructor
  · simp
  · simp

private theorem neg (nearest : IsNearestEven q n) : IsNearestEven (-q) (-n) := by
  have distance : |-q - (-n : ℤ)| = |q - n| := by
    rw [Int.cast_neg, ← abs_neg]
    congr 1
    ring
  exact ⟨distance ▸ nearest.near, fun same => (nearest.tie (distance ▸ same)).neg⟩

private theorem of_lt (near : |q - n| < 1 / 2) : IsNearestEven q n :=
  ⟨near.le, fun same => absurd same near.ne⟩

theorem unique (first : IsNearestEven q m) (second : IsNearestEven q n) : m = n := by
  wlog less : m < n generalizing m n
  · rcases (not_lt.mp less).eq_or_lt with same | less'
    · exact same.symm
    · exact (this second first less').symm
  exfalso
  have below := (abs_le.mp first.near).2
  have above := (abs_le.mp second.near).1
  have step : (m : ℚ) + 1 ≤ n := by exact_mod_cast less
  -- Two different ones can only be the neighbors of a number in the middle between them.
  have next : n = m + 1 := by
    have next' : (n : ℚ) ≤ m + 1 := by linarith
    exact le_antisymm (by exact_mod_cast next') less
  have middle : q - m = 1 / 2 := by linarith
  have middle' : q - n = -(1 / 2) := by linarith
  have even := first.tie (by rw [middle]; norm_num)
  have even' := second.tie (by rw [middle']; norm_num)
  rw [next, Int.even_add_one] at even'
  exact even' even

end IsNearestEven

theorem isNearestEven_roundHalfEven (n : Nat) {d : Nat} (positive : 0 < d) :
    IsNearestEven (n / d) (roundHalfEven n d : Nat) := by
  have positive' : (0 : ℚ) < d := Nat.cast_pos.mpr positive
  have whole : (n : ℚ) / d = (n / d : Nat) + (n % d : Nat) / d := by
    have parts : ((d * (n / d) + n % d : Nat) : ℚ) = n := by rw [Nat.div_add_mod]
    rw [← parts]
    push_cast
    field_simp
  rw [whole]
  unfold roundHalfEven
  dsimp only
  generalize n / d = q
  have below : ((n % d : Nat) : ℚ) / d < 1 := by
    rw [div_lt_one positive', Nat.cast_lt]
    exact Nat.mod_lt n positive
  have nonneg : (0 : ℚ) ≤ (n % d : Nat) / d := by positivity
  split_ifs with low high
  · have low' : ((n % d : Nat) : ℚ) / d < 1 / 2 := by
      rw [div_lt_div_iff₀ positive' two_pos, one_mul, mul_comm]
      exact_mod_cast low
    refine .of_lt ?_
    rw [Int.cast_natCast, add_sub_cancel_left, abs_of_nonneg nonneg]
    exact low'
  · have high' : 1 / 2 < ((n % d : Nat) : ℚ) / d := by
      rw [div_lt_div_iff₀ two_pos positive', one_mul, mul_comm]
      exact_mod_cast high
    refine .of_lt ?_
    rw [abs_lt]
    push_cast
    constructor <;> linarith
  · have tie : ((n % d : Nat) : ℚ) / d = 1 / 2 := by
      rw [div_eq_div_iff positive'.ne' two_ne_zero, one_mul, mul_comm]
      exact_mod_cast (by omega : 2 * (n % d) = d)
    have even : Even (q + q % 2) := by
      rw [Nat.even_add, Nat.even_iff, Nat.even_iff, Nat.mod_mod]
    refine ⟨?_, fun _ => by exact_mod_cast even⟩
    rw [tie, abs_le]
    rcases Nat.mod_two_eq_zero_or_one q with parity | parity
    · rw [parity]
      push_cast
      constructor <;> linarith
    · rw [parity]
      push_cast
      constructor <;> linarith

theorem isNearestEven_roundedMagnitude (places mantissa : Nat) (exponent : Int) :
    IsNearestEven (mantissa * 2 ^ exponent * 10 ^ places)
      (roundedMagnitude places mantissa exponent : Nat) := by
  cases exponent with
  | ofNat e =>
    have whole : (mantissa * 2 ^ (Int.ofNat e) * 10 ^ places : ℚ) =
        ((mantissa * 2 ^ e * 10 ^ places : Nat) : ℤ) := by
      rw [Int.ofNat_eq_natCast, zpow_natCast]
      push_cast
      rfl
    rw [whole]
    exact .self _
  | negSucc e =>
    have quotient : (mantissa * 2 ^ (Int.negSucc e) * 10 ^ places : ℚ) =
        (mantissa * 10 ^ places : Nat) / (2 ^ (e + 1) : Nat) := by
      rw [zpow_negSucc]
      push_cast
      field
    rw [quotient]
    exact isNearestEven_roundHalfEven _ (Nat.two_pow_pos _)

/-- A finite number is rounded to the nearest whole number of units. -/
theorem exists_rounded?_eq {x : Float} (finite : x.isFinite) (places : Nat) :
    ∃ n, (Exact.ofBinary x).rounded? places = some n ∧
      IsNearestEven ((Exact.ofBinary x).value * 10 ^ places) n := by
  obtain ⟨negative, mantissa, exponent, exact⟩ := (exists_exact_iff x).mpr finite
  have nearest := isNearestEven_roundedMagnitude places mantissa exponent
  rw [exact]
  refine ⟨_, rfl, ?_⟩
  cases negative with
  | false => simpa [Exact.value, signed] using nearest
  | true => simpa [Exact.value, signed] using nearest.neg

end CapabilityAtlas.Numeral
