import CapabilityAtlas.Numeral.Decimal
import CapabilityAtlas.Numeral.Reading
import Mathlib.Algebra.Order.Field.Rat
import Mathlib.Data.List.DropRight
import Mathlib.Data.Nat.Basic
import Mathlib.Tactic.Field
import Mathlib.Tactic.NormNum

set_option autoImplicit false
set_option relaxedAutoImplicit false

/-!
The decimal of a number reads back as that number, so different numbers have different decimals.
-/

namespace CapabilityAtlas.Numeral

theorem toNat_digit (n : Nat) : (digit n).toNat = 48 + n % 10 := by
  have small : n % 10 < 10 := Nat.mod_lt n (by omega)
  have valid : (48 + n % 10).isValidChar := Or.inl (by omega)
  unfold digit Char.ofNat
  rw [dif_pos valid]
  rfl

theorem isDigit_digit (n : Nat) : (digit n).isDigit = true := by
  have value := toNat_digit n
  have small : n % 10 < 10 := Nat.mod_lt n (by omega)
  rw [Char.isDigit_iff_toNat, value]
  change 48 ≤ 48 + n % 10 ∧ 48 + n % 10 ≤ 57
  omega

theorem digit_ne {n : Nat} {c : Char} (other : c.isDigit = false) : digit n ≠ c := by
  rintro rfl
  rw [isDigit_digit] at other
  exact Bool.noConfusion other

theorem utf8Size_digit (n : Nat) : (digit n).utf8Size = 1 := by
  have value := toNat_digit n
  have small : n % 10 < 10 := Nat.mod_lt n (by decide)
  rw [Char.utf8Size_eq_one_iff, UInt32.le_iff_toNat_le]
  change (digit n).toNat ≤ 127
  omega

private theorem digitsValue_append_digit (cs : List Char) (n : Nat) :
    digitsValue (cs ++ [digit n]) = 10 * digitsValue cs + n % 10 := by
  rw [digitsValue, List.foldl_append, List.foldl_cons, List.foldl_nil, toNat_digit,
    Nat.add_sub_cancel_left]
  rfl

theorem digitsValue_digits (n : Nat) : digitsValue (digits n) = n := by
  induction n using Nat.strongRecOn with
  | ind n ih =>
    unfold digits
    split
    · rename_i small
      have last := digitsValue_append_digit [] n
      have empty : digitsValue [] = 0 := rfl
      rw [List.nil_append] at last
      omega
    · rename_i large
      rw [digitsValue_append_digit, ih (n / 10) (by omega)]
      omega

theorem isDigit_of_mem_digits {n : Nat} {c : Char} (member : c ∈ digits n) : c.isDigit = true := by
  induction n using Nat.strongRecOn with
  | ind n ih =>
    unfold digits at member
    split at member
    · rw [List.mem_singleton] at member
      rw [member]
      exact isDigit_digit n
    · rename_i large
      rcases List.mem_append.mp member with earlier | last
      · exact ih (n / 10) (by omega) earlier
      · rw [List.mem_singleton] at last
        rw [last]
        exact isDigit_digit n

theorem forall_mem_paddedDigits {p : Char → Prop} (digits : ∀ n, p (digit n)) (places n : Nat) :
    ∀ c ∈ paddedDigits places n, p c := by
  induction places generalizing n with
  | zero => simp [paddedDigits]
  | succ places ih =>
    intro c member
    rcases List.mem_append.mp member with earlier | last
    · exact ih (n / 10) c earlier
    · rw [List.mem_singleton.mp last]
      exact digits n

theorem toList_integerText (n : Nat) : (integerText n).toList = digits n := by
  have positive : ¬ ((n : Int) < 0) := by omega
  rw [integerText, if_neg positive, Int.natAbs_natCast, String.toList_ofList]

/-!
Compact decimals. Cut from the fixed ones, they end in neither a zero behind the point nor the point
itself, and of the two zeros only the one without a sign is written. As the digits that are left
still hold the number, different numbers have different compact decimals.
-/

section Digits

private theorem digitsValue_append (cs ds : List Char) :
    digitsValue (cs ++ ds) = digitsValue cs * 10 ^ ds.length + digitsValue ds := by
  induction ds using List.reverseRecOn with
  | nil => simp [digitsValue]
  | append_singleton ds d ih =>
    have step : ∀ es : List Char, digitsValue (es ++ [d]) = 10 * digitsValue es + (d.toNat - 48) :=
      fun es => by rw [digitsValue, List.foldl_append]; rfl
    rw [← List.append_assoc, step, step, ih, List.length_append, List.length_singleton, pow_succ,
      ← mul_assoc]
    omega

private theorem digitsValue_replicate (count : Nat) :
    digitsValue (List.replicate count '0') = 0 := by
  induction count with
  | zero => rfl
  | succ count ih => exact ih

private theorem digitsValue_paddedDigits (places n : Nat) :
    digitsValue (paddedDigits places n) = n % 10 ^ places := by
  induction places generalizing n with
  | zero => simp [paddedDigits, digitsValue, Nat.mod_one]
  | succ places ih =>
    rw [paddedDigits, digitsValue_append_digit, ih, Nat.pow_succ', Nat.mod_mul, Nat.add_comm]

private theorem eq_zero_of_head?_digits {n : Nat} (zero : (digits n).head? = some '0') : n = 0 := by
  induction n using Nat.strongRecOn with
  | ind n ih =>
    unfold digits at zero
    split at zero
    · have value := congrArg Char.toNat (Option.some.inj zero)
      rw [toNat_digit] at value
      change 48 + n % 10 = 48 at value
      omega
    · rw [List.head?_append_of_ne_nil _ (digits_ne_nil _)] at zero
      have small := ih (n / 10) (by omega) zero
      omega

private theorem digits_zero : digits 0 = ['0'] := by
  rw [digits]
  rfl

private theorem paddedDigits_zero (places : Nat) :
    paddedDigits places 0 = List.replicate places '0' := by
  induction places with
  | zero => rfl
  | succ places ih =>
    rw [paddedDigits, Nat.zero_div, ih, List.replicate_succ']
    rfl

private theorem exists_cutEnd_append (c : Char) (text : List Char) :
    ∃ count, text = cutEnd c text ++ List.replicate count c := by
  refine ⟨(text.rtakeWhile (· = c)).length, ?_⟩
  have tail : text.rtakeWhile (· = c) = List.replicate (text.rtakeWhile (· = c)).length c :=
    List.eq_replicate_length.mpr fun d member => by simpa using List.mem_rtakeWhile_imp member
  rw [← tail]
  exact List.rdropWhile_append_rtakeWhile.symm

private theorem isDigit_of_mem_cutEnd {places n : Nat} {c : Char}
    (member : c ∈ cutEnd '0' (paddedDigits places n)) : c.isDigit := by
  obtain ⟨count, split⟩ := exists_cutEnd_append '0' (paddedDigits places n)
  refine forall_mem_paddedDigits (p := (Char.isDigit · = true)) isDigit_digit places n c ?_
  rw [split]
  exact List.mem_append_left _ member

private theorem getLast?_cutEnd_ne (c : Char) (text : List Char) :
    (cutEnd c text).getLast? ≠ some c := by
  rw [cutEnd, List.getLast?_reverse]
  intro first
  have kept := List.head?_dropWhile_not (· = c) text.reverse
  rw [first] at kept
  simp at kept

private theorem cutEnd_append_singleton {c d : Char} (other : d ≠ c) (text : List Char) :
    cutEnd c (text ++ [d]) = text ++ [d] := by
  rw [cutEnd, List.reverse_append, List.reverse_singleton, List.singleton_append,
    List.dropWhile_cons_of_neg (by simpa using other)]
  simp

private theorem cutEnd_append_replicate (c : Char) (text : List Char) (count : Nat) :
    cutEnd c (text ++ List.replicate count c) = cutEnd c text := by
  rw [cutEnd, List.reverse_append, List.reverse_replicate,
    List.dropWhile_append_of_pos (by simp), cutEnd]

private theorem cutEnd_eq_self {c : Char} {text : List Char} (other : text.getLast? ≠ some c) :
    cutEnd c text = text := by
  rcases List.eq_nil_or_concat text with rfl | ⟨front, d, rfl⟩
  · rfl
  · rw [List.concat_eq_append] at other ⊢
    exact cutEnd_append_singleton (by simpa using other) front

end Digits

/-- A decimal by its sign, the digits before the point and those behind it. -/
structure Spelling where
  negative : Bool
  whole : List Char
  fraction : List Char

namespace Spelling

def pointed (fraction : List Char) : List Char := if fraction = [] then [] else '.' :: fraction

def chars (s : Spelling) : List Char :=
  (if s.negative then ['-'] else []) ++ s.whole ++ pointed s.fraction

def value (s : Spelling) : ℚ :=
  (if s.negative then -1 else 1) *
    (digitsValue (s.whole ++ s.fraction) / 10 ^ s.fraction.length)

/-- Whether a decimal consists of digits and has no more of them, and no more signs, than its number
needs. -/
structure IsCanonical (s : Spelling) : Prop where
  whole : ∀ c ∈ s.whole, c.isDigit
  fraction : ∀ c ∈ s.fraction, c.isDigit
  nonempty : s.whole ≠ []
  leading : s.whole.head? = some '0' → s.whole = ['0']
  trailing : s.fraction.getLast? ≠ some '0'
  unsigned : s.whole = ['0'] → s.fraction = [] → s.negative = false

theorem pointed_inj {f g : List Char} (same : pointed f = pointed g) : f = g := by
  unfold pointed at same
  split_ifs at same with whole whole' whole'
  · rw [whole, whole']
  · exact (List.cons.inj same).2

private theorem takeWhile_append_pointed {whole : List Char} (digits : ∀ c ∈ whole, c.isDigit)
    (fraction : List Char) : (whole ++ pointed fraction).takeWhile Char.isDigit = whole := by
  have tail : (pointed fraction).takeWhile Char.isDigit = [] := by
    unfold pointed
    split_ifs
    · rfl
    · rfl
  rw [List.takeWhile_append_of_pos digits, tail, List.append_nil]

private theorem parts_eq {w w' f f' : List Char} (digits : ∀ c ∈ w, c.isDigit)
    (digits' : ∀ c ∈ w', c.isDigit) (same : w ++ pointed f = w' ++ pointed f') :
    w = w' ∧ f = f' := by
  have whole : w = w' := by
    have read := congrArg (List.takeWhile Char.isDigit) same
    rwa [takeWhile_append_pointed digits, takeWhile_append_pointed digits'] at read
  rw [whole] at same
  exact ⟨whole, pointed_inj (List.append_cancel_left same)⟩

variable {s t : Spelling}

private theorem head?_append_ne (canonical : s.IsCanonical) (rest : List Char) :
    (s.whole ++ rest).head? ≠ some '-' := by
  rw [List.head?_append_of_ne_nil _ canonical.nonempty]
  intro first
  exact absurd (canonical.whole '-' (List.mem_of_mem_head? first)) (by decide)

private theorem eq_of_chars_eq (first : s.IsCanonical) (second : t.IsCanonical)
    (same : s.chars = t.chars) : s = t := by
  have other := head?_append_ne first (pointed s.fraction)
  have other' := head?_append_ne second (pointed t.fraction)
  obtain ⟨negative, whole, fraction⟩ := s
  obtain ⟨negative', whole', fraction'⟩ := t
  simp only [chars, List.append_assoc] at same other other'
  cases negative with
  | false =>
    cases negative' with
    | false =>
      obtain ⟨rfl, rfl⟩ := parts_eq first.whole second.whole same
      rfl
    | true => exact absurd (congrArg List.head? same) other
  | true =>
    cases negative' with
    | false => exact absurd (congrArg List.head? same).symm other'
    | true =>
      obtain ⟨rfl, rfl⟩ := parts_eq first.whole second.whole (List.append_cancel_left same)
      rfl

theorem chars_ne_nil (canonical : s.IsCanonical) : s.chars ≠ [] := by
  simp [chars, canonical.nonempty]

private theorem chars_ne_negative_zero (canonical : s.IsCanonical) : s.chars ≠ ['-', '0'] := by
  intro same
  have other := head?_append_ne canonical (pointed s.fraction)
  obtain ⟨negative, whole, fraction⟩ := s
  simp only [chars, List.append_assoc] at same other
  cases negative with
  | false => exact other (congrArg List.head? same)
  | true =>
    have rest : whole ++ pointed fraction = ['0'] ++ pointed [] := List.append_cancel_left same
    obtain ⟨rfl, rfl⟩ := parts_eq canonical.whole (by simp) rest
    exact Bool.noConfusion (canonical.unsigned rfl rfl)

end Spelling

section Compact

variable {places : Nat} {m n : Int}

/-- The compact decimal of a number in units of `10 ^ -places`, by its parts. -/
def spelling (places : Nat) (n : Int) : Spelling where
  negative := decide (n < 0)
  whole := digits (n.natAbs / Nat.pow 10 places)
  fraction := cutEnd '0' (paddedDigits places n.natAbs)

theorem chars_spelling (places : Nat) (n : Int) :
    (spelling places n).chars = compactDigits places n := by
  simp only [Spelling.chars, spelling, decide_eq_true_eq]
  rfl

theorem value_spelling (places : Nat) (n : Int) :
    (spelling places n).value = n / 10 ^ places := by
  obtain ⟨count, split⟩ := exists_cutEnd_append '0' (paddedDigits places n.natAbs)
  obtain ⟨value, held⟩ : ∃ value, digitsValue (digits (n.natAbs / 10 ^ places) ++
      cutEnd '0' (paddedDigits places n.natAbs)) = value := ⟨_, rfl⟩
  obtain ⟨kept, length⟩ : ∃ kept, (cutEnd '0' (paddedDigits places n.natAbs)).length = kept :=
    ⟨_, rfl⟩
  have total := congrArg List.length split
  rw [paddedDigits_length, List.length_append, List.length_replicate, length] at total
  have whole : n.natAbs = value * 10 ^ count := by
    calc n.natAbs = n.natAbs / 10 ^ places * 10 ^ places + n.natAbs % 10 ^ places :=
          (Nat.div_add_mod' _ _).symm
      _ = digitsValue (digits (n.natAbs / 10 ^ places) ++ paddedDigits places n.natAbs) := by
          rw [digitsValue_append, digitsValue_digits, paddedDigits_length,
            digitsValue_paddedDigits]
      _ = value * 10 ^ count := by
          rw [split, ← List.append_assoc, digitsValue_append, digitsValue_replicate,
            List.length_replicate, Nat.add_zero, held]
  have sign : (n : ℚ) = (if n < 0 then -1 else 1) * (n.natAbs : ℚ) := by
    split_ifs with below
    · rw [Nat.cast_natAbs, abs_of_neg below, Int.cast_neg, neg_one_mul, neg_neg]
    · rw [Nat.cast_natAbs, abs_of_nonneg (not_lt.mp below), one_mul]
  have parts : (spelling places n).value =
      (if n < 0 then -1 else 1) * ((value : ℚ) / 10 ^ kept) := by
    rw [← held, ← length]
    simp only [Spelling.value, spelling, decide_eq_true_eq]
    rfl
  rw [parts, sign, whole, total, pow_add]
  push_cast
  field

theorem isCanonical_spelling (places : Nat) (n : Int) : (spelling places n).IsCanonical := by
  have leading : ∀ {k : Nat}, (digits k).head? = some '0' → digits k = ['0'] := by
    intro k zero
    rw [eq_zero_of_head?_digits zero, digits_zero]
  constructor
  case whole => exact fun c => isDigit_of_mem_digits
  case fraction => exact fun c => isDigit_of_mem_cutEnd
  case nonempty => exact digits_ne_nil _
  case leading => exact leading
  case trailing => exact getLast?_cutEnd_ne '0' _
  case unsigned =>
    intro whole fraction
    have value := value_spelling places n
    rw [Spelling.value, whole, fraction] at value
    have zero : (n : ℚ) / 10 ^ places = 0 := by
      rw [← value]
      simp [digitsValue]
    have vanishes : n = 0 := by simpa using zero
    rw [vanishes]
    rfl

theorem compactDigits_inj : compactDigits places m = compactDigits places n ↔ m = n := by
  refine ⟨fun same => ?_, congrArg _⟩
  rw [← chars_spelling, ← chars_spelling] at same
  have parts := Spelling.eq_of_chars_eq (isCanonical_spelling places m)
    (isCanonical_spelling places n) same
  have values := congrArg Spelling.value parts
  rw [value_spelling, value_spelling, div_left_inj' (by positivity)] at values
  exact_mod_cast values

end Compact

section Trimmed

variable {places : Nat}

private theorem cutEnd_placedDigits (places : Nat) (negative : Bool) (magnitude : Nat) :
    cutEnd '.' (cutEnd '0' (placedDigits places negative magnitude)) =
      Spelling.chars ⟨negative, digits (magnitude / Nat.pow 10 places),
        cutEnd '0' (paddedDigits places magnitude)⟩ := by
  obtain ⟨count, split⟩ := exists_cutEnd_append '0' (paddedDigits places magnitude)
  have trailing := getLast?_cutEnd_ne '0' (paddedDigits places magnitude)
  have digit : ∀ c ∈ cutEnd '0' (paddedDigits places magnitude), c.isDigit :=
    fun c => isDigit_of_mem_cutEnd
  have front : ∀ c ∈ ((if negative then ['-'] else []) ++
      digits (magnitude / Nat.pow 10 places)).getLast?, c.isDigit := by
    intro c last
    rw [List.getLast?_append_of_ne_nil _ (digits_ne_nil _)] at last
    exact isDigit_of_mem_digits (List.mem_of_getLast? last)
  generalize cutEnd '0' (paddedDigits places magnitude) = fraction at split trailing digit ⊢
  rw [placedDigits, Spelling.chars, split]
  generalize (if negative then ['-'] else []) ++ digits (magnitude / Nat.pow 10 places) = before
    at front ⊢
  have zeros : cutEnd '0' (before ++ '.' :: fraction) = before ++ '.' :: fraction := by
    refine cutEnd_eq_self ?_
    rw [List.getLast?_append_cons, List.getLast?_cons]
    cases last : fraction.getLast? with
    | none => simp
    | some c => simpa [last] using trailing
  rw [← List.cons_append, ← List.append_assoc, cutEnd_append_replicate, zeros, Spelling.pointed]
  split_ifs with whole
  · obtain rfl : fraction = [] := whole
    rw [List.append_nil]
    have point := cutEnd_append_replicate '.' before 1
    rw [List.replicate_one] at point
    rw [point]
    refine cutEnd_eq_self fun last => ?_
    exact absurd (front '.' last) (by decide)
  · refine cutEnd_eq_self fun last => ?_
    rw [List.getLast?_append_cons, List.getLast?_cons_of_ne_nil whole] at last
    exact absurd (digit '.' (List.mem_of_getLast? last)) (by decide)

/-- A compact decimal is what is left when the zeros at the end of all places are cut off. -/
theorem trimmedDigits_eq (places : Nat) (negative : Bool) (magnitude : Nat) :
    trimmedDigits places negative magnitude = compactDigits places (signed negative magnitude) := by
  have text := cutEnd_placedDigits places negative magnitude
  unfold trimmedDigits
  dsimp only
  rcases magnitude.eq_zero_or_pos with rfl | positive
  · have blank : cutEnd '0' (paddedDigits places 0) = [] := by
      rw [paddedDigits_zero, ← List.nil_append (List.replicate _ _), cutEnd_append_replicate]
      rfl
    have zero : signed negative 0 = 0 := by cases negative <;> rfl
    have whole : digits (0 / Nat.pow 10 places) = ['0'] := by rw [Nat.zero_div, digits_zero]
    have compact : compactDigits places 0 = ['0'] := by
      rw [← chars_spelling]
      simp only [spelling, Int.natAbs_zero, blank, whole]
      rfl
    rw [text, blank, whole, zero, compact]
    cases negative <;> rfl
  · have size : (signed negative magnitude).natAbs = magnitude := by
      cases negative <;> simp [signed]
    have sign : decide (signed negative magnitude < 0) = negative := by
      cases negative <;> simp [signed, positive]
    have parts : spelling places (signed negative magnitude) =
        ⟨negative, digits (magnitude / Nat.pow 10 places),
          cutEnd '0' (paddedDigits places magnitude)⟩ := by
      rw [spelling, size, sign]
    have canonical := isCanonical_spelling places (signed negative magnitude)
    rw [text, ← parts, if_neg, chars_spelling]
    exact not_or.mpr ⟨Spelling.chars_ne_negative_zero canonical, Spelling.chars_ne_nil canonical⟩

theorem trimmed_eq_compact (places : Nat) (x : Float) : trimmed places x = compact places x := by
  unfold trimmed compact
  cases Exact.ofBinary x with
  | finite negative mantissa exponent =>
    simp only [Exact.rounded?]
    rw [trimmedDigits_eq]
  | infinite negative => rfl
  | undefined => rfl

end Trimmed

end CapabilityAtlas.Numeral
