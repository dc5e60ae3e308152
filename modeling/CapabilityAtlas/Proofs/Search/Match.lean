import CapabilityAtlas.Search.Match
import Mathlib.Algebra.Order.BigOperators.Group.List
import Mathlib.Algebra.Order.Field.Basic
import Mathlib.Order.Bounds.Basic
import Mathlib.Tactic.Linarith
import Mathlib.Tactic.NormNum

set_option autoImplicit false
set_option relaxedAutoImplicit false

/-!
What it means that a query matches. Searched word by word, a text gives the best way in which each
word of the query is found in any of its words, in whatever order they come; the score is the mean
of these, unless the text contains the whole query.
-/

namespace CapabilityAtlas.Search

open CapabilityAtlas.Text

variable {target query word : List Char}

private theorem isAffix_iff (targetWord queryWord : List Char) :
    isAffix targetWord queryWord ↔ queryWord <+: targetWord ∨ targetWord <+: queryWord := by
  rw [isAffix, Bool.or_eq_true, List.isPrefixOf_iff_prefix, List.isPrefixOf_iff_prefix]

def HasText (cs : List Char) : Prop := ∃ c ∈ cs, isBlank c = false

private theorem all_isBlank_eq_false_iff (cs : List Char) : cs.all isBlank = false ↔ HasText cs :=
  List.all_eq_false.trans (by simp [HasText])

private theorem hasText_of_part (inside : query <:+: target) (visible : HasText query) :
    HasText target := by
  obtain ⟨c, member, shown⟩ := visible
  exact ⟨c, inside.subset member, shown⟩

private theorem mem_queryWords_iff (query word : List Char) :
    word ∈ queryWords query ↔ word ∈ words query ∧ 2 ≤ word.length := by
  rw [queryWords, List.mem_filter, decide_eq_true_eq]
  rfl

theorem mapM_eq_ite {β γ : Type} (f : β → Option γ) (xs : List β) :
    xs.mapM f = if xs.all (fun x => (f x).isSome) then some (xs.filterMap f) else none := by
  induction xs with
  | nil => rfl
  | cons x xs ih =>
    rw [List.mapM_cons, ih, List.all_cons, List.filterMap_cons]
    cases f x with
    | none => rfl
    | some y =>
      by_cases rest : xs.all (fun x => (f x).isSome) = true
      · simp [rest]
      · simp [rest]

section Distance

variable [WordDistance]

/-- A word that may be a misspelled one: four characters long at least, at most two longer or
shorter, and different in two places at most. -/
structure IsTypo (targetWord queryWord : List Char) : Prop where
  long : 4 ≤ queryWord.length
  notLonger : targetWord.length ≤ queryWord.length + 2
  notShorter : queryWord.length ≤ targetWord.length + 2
  close : WordDistance.distance targetWord queryWord ≤ 2

private theorem isTypo_iff (targetWord queryWord : List Char) :
    isTypo targetWord queryWord ↔ IsTypo targetWord queryWord := by
  rw [isTypo, Bool.and_eq_true, Bool.and_eq_true, Bool.and_eq_true, decide_eq_true_eq,
    decide_eq_true_eq, decide_eq_true_eq, decide_eq_true_eq]
  exact ⟨fun ⟨⟨⟨longer, shorter⟩, long⟩, close⟩ => ⟨long, longer, shorter, close⟩,
    fun typo => ⟨⟨⟨typo.notLonger, typo.notShorter⟩, typo.long⟩, typo.close⟩⟩

/-- Whether a word of a query is found in a text in a given way. -/
def Attains (target word : List Char) : Rung → Prop
  | .contained => word <:+: target
  | .affix => ∃ w ∈ words target, word <+: w ∨ w <+: word
  | .typo => ∃ w ∈ words target, IsTypo w word

private theorem exists_attains_iff (target word : List Char) : (∃ r, Attains target word r) ↔
    word <:+: target ∨ ∃ w ∈ words target, word <+: w ∨ w <+: word ∨ IsTypo w word := by
  constructor
  · rintro ⟨_ | _ | _, attained⟩
    · exact Or.inl attained
    · obtain ⟨w, member, begins | begun⟩ := attained
      · exact Or.inr ⟨w, member, Or.inl begins⟩
      · exact Or.inr ⟨w, member, Or.inr (Or.inl begun)⟩
    · obtain ⟨w, member, typo⟩ := attained
      exact Or.inr ⟨w, member, Or.inr (Or.inr typo)⟩
  · rintro (inside | ⟨w, member, begins | begun | typo⟩)
    · exact ⟨.contained, inside⟩
    · exact ⟨.affix, w, member, Or.inl begins⟩
    · exact ⟨.affix, w, member, Or.inr begun⟩
    · exact ⟨.typo, w, member, typo⟩

private theorem any_isAffix_iff (target word : List Char) :
    (words target).any (isAffix · word) ↔ Attains target word .affix := by
  simp only [List.any_eq_true, isAffix_iff, Attains]

private theorem any_isTypo_iff (target word : List Char) :
    (words target).any (isTypo · word) ↔ Attains target word .typo := by
  simp only [List.any_eq_true, isTypo_iff, Attains]

/-- The best way in which a word is found comes before the others. -/
theorem rung?_spec (target word : List Char) :
    match rung? target word with
    | some .contained => Attains target word .contained
    | some .affix => Attains target word .affix ∧ ¬ Attains target word .contained
    | some .typo => Attains target word .typo ∧ ¬ Attains target word .contained ∧
        ¬ Attains target word .affix
    | none => ∀ r, ¬ Attains target word r := by
  have contained : occursIn word target ↔ Attains target word .contained := occursIn_iff word target
  have affix := any_isAffix_iff target word
  have typo := any_isTypo_iff target word
  unfold rung?
  split_ifs with inside begins misspelled
  · exact contained.mp inside
  · exact ⟨affix.mp begins, contained.not.mp inside⟩
  · exact ⟨typo.mp misspelled, contained.not.mp inside, affix.not.mp begins⟩
  · rintro (_ | _ | _)
    · exact contained.not.mp inside
    · exact affix.not.mp begins
    · exact typo.not.mp misspelled

private theorem isSome_rung?_iff : (rung? target word).isSome ↔ ∃ r, Attains target word r := by
  have spec := rung?_spec target word
  cases found : rung? target word with
  | none =>
    rw [found] at spec
    exact iff_of_false Bool.false_ne_true (not_exists.mpr spec)
  | some r =>
    rw [found] at spec
    refine iff_of_true rfl ⟨r, ?_⟩
    cases r with
    | contained => exact spec
    | affix => exact spec.1
    | typo => exact spec.1

section Scan

variable {α : Type} [NatCast α] [Div α]

private theorem scanWords_eq (queryWord : List Char) (best : α) (ws : List (List Char)) :
    scanWords queryWord best ws =
      if ws.any (isAffix · queryWord) then Rung.affix.score
      else if ws.any (isTypo · queryWord) then Rung.typo.score else best := by
  induction ws generalizing best with
  | nil => rfl
  | cons w ws ih =>
    rw [scanWords, List.any_cons, List.any_cons]
    cases affix : isAffix w queryWord
    · rw [if_neg Bool.false_ne_true, ih]
      cases typo : isTypo w queryWord <;> simp
    · simp

private theorem wordScore_eq (target queryWord : List Char) :
    wordScore target queryWord =
      (((rung? target queryWord).map Rung.score).getD ((0 : Nat) : α) : α) := by
  rw [wordScore, scanWords_eq, rung?]
  split_ifs <;> rfl

private theorem map_score_filterMap_rung? {ws : List (List Char)}
    (found : ws.all (fun w => (rung? target w).isSome)) :
    (ws.filterMap (rung? target)).map Rung.score = (ws.map (wordScore target) : List α) := by
  induction ws with
  | nil => rfl
  | cons w ws ih =>
    obtain ⟨first, later⟩ := (Bool.and_eq_true _ _).mp (List.all_cons ▸ found)
    obtain ⟨r, here⟩ := Option.isSome_iff_exists.mp first
    rw [List.filterMap_cons_some here, List.map_cons, List.map_cons, ih later, wordScore_eq, here]
    rfl

private theorem scoreNormal?_eq [Add α] (target query : List Char) :
    (scoreNormal? target query : Option α) =
      if target.all isBlank || query.all isBlank then none
      else if target = query then some ((1 : Nat) : α)
      else if occursIn query target then some Rung.contained.score
      else if (queryWords query).isEmpty then none
      else if (queryWords query).all (fun w => (rung? target w).isSome) then
        some (mean ((queryWords query).map (wordScore target)))
      else none := by
  rw [scoreNormal?, mapM_eq_ite]
  split_ifs with _ _ _ _ found
  · rfl
  · rfl
  · rfl
  · rfl
  · rw [Option.map_some, map_score_filterMap_rung? found]
  · rfl

end Scan

section Cases

variable {α : Type} [Add α] [Div α] [NatCast α]

private theorem scoreNormal?_of_blank (blank : ¬ (HasText target ∧ HasText query)) :
    (scoreNormal? target query : Option α) = none := by
  rw [← all_isBlank_eq_false_iff, ← all_isBlank_eq_false_iff] at blank
  have either : (target.all isBlank || query.all isBlank) = true := by
    cases first : target.all isBlank <;> cases second : query.all isBlank <;> simp_all
  rw [scoreNormal?, if_pos either]

theorem scoreValue?_text (target query : String) :
    scoreValue? (.text target) (.text query) =
      .ok (score? target.toList query.toList : Option α) := by
  have given : ∀ text : String, (Payload.text text).isGiven = false →
      ¬ HasText (normalize text.toList) := by
    intro text missing
    obtain rfl : text = "" := by simpa [Payload.isGiven] using missing
    rintro ⟨c, member, -⟩
    simp [normalize, lower, lowerFrom] at member
  unfold scoreValue?
  split_ifs with skipped
  · rw [score?, scoreNormal?_of_blank]
    rintro ⟨first, second⟩
    rcases (Bool.or_eq_true _ _).mp skipped with missing | missing
    · exact given target (by simpa using missing) first
    · exact given query (by simpa using missing) second
  · rfl

private theorem scoreNormal?_of_hasText (target' : HasText target) (query' : HasText query) :
    (scoreNormal? target query : Option α) =
      if target = query then some ((1 : Nat) : α)
      else if occursIn query target then some Rung.contained.score
      else if (queryWords query).isEmpty then none
      else if (queryWords query).all (fun w => (rung? target w).isSome) then
        some (mean ((queryWords query).map (wordScore target)))
      else none := by
  rw [← all_isBlank_eq_false_iff] at target' query'
  rw [scoreNormal?_eq, target', query', if_neg (by simp)]

/-- Whether every word of a query that counts is found in a text, and there is one. -/
def FindsWords (target query : List Char) : Prop :=
  (∃ w ∈ words query, 2 ≤ w.length) ∧
    ∀ w ∈ words query, 2 ≤ w.length → ∃ r, Attains target w r

private theorem findsWords_iff : FindsWords target query ↔ (queryWords query).isEmpty = false ∧
    (queryWords query).all (fun w => (rung? target w).isSome) := by
  have counted : (∃ w ∈ words query, 2 ≤ w.length) ↔ (queryWords query).isEmpty = false := by
    rw [List.isEmpty_eq_false_iff_exists_mem]
    simp only [mem_queryWords_iff]
  have each : (∀ w ∈ words query, 2 ≤ w.length → ∃ r, Attains target w r) ↔
      (queryWords query).all (fun w => (rung? target w).isSome) := by
    simp only [List.all_eq_true, isSome_rung?_iff, mem_queryWords_iff, and_imp]
  rw [FindsWords, counted, each]

private theorem isSome_scoreNormal?_iff : (scoreNormal? target query : Option α).isSome ↔
    HasText target ∧ HasText query ∧ (query <:+: target ∨ FindsWords target query) := by
  by_cases visible : HasText target ∧ HasText query
  · rw [scoreNormal?_of_hasText visible.1 visible.2, findsWords_iff, ← occursIn_iff]
    have own : target = query → occursIn query target = true := fun same =>
      (occursIn_iff query target).mpr (same ▸ List.infix_refl _)
    split_ifs <;> simp_all
  · rw [scoreNormal?_of_blank visible]
    exact iff_of_false Bool.false_ne_true fun all => visible ⟨all.1, all.2.1⟩

private theorem scoreNormal?_eq_mean (target' : HasText target) (query' : HasText query)
    (apart : ¬ query <:+: target) (finds : FindsWords target query) :
    (scoreNormal? target query : Option α) =
      some (mean ((queryWords query).map (wordScore target))) := by
  have unequal : target ≠ query := by
    rintro rfl
    exact apart (List.infix_refl _)
  obtain ⟨counted, each⟩ := findsWords_iff.mp finds
  rw [scoreNormal?_of_hasText target' query', if_neg unequal,
    if_neg ((occursIn_iff query target).not.mpr apart), counted,
    if_neg Bool.false_ne_true, if_pos each]

end Cases

/-- Numbers in which every way to find a word scores above zero. -/
class PositiveScores (α : Type) [NatCast α] [Div α] [LT α] : Prop where
  zero_lt_score : ∀ r : Rung, ((0 : Nat) : α) < r.score
  not_zero_lt_zero : ¬ ((0 : Nat) : α) < ((0 : Nat) : α)

section Positive

variable {α : Type} [NatCast α] [Div α] [LT α] [PositiveScores α]

theorem wordScore_pos_iff (target word : List Char) :
    ((0 : Nat) : α) < wordScore target word ↔ (rung? target word).isSome := by
  rw [wordScore_eq]
  cases rung? target word with
  | none => exact iff_of_false PositiveScores.not_zero_lt_zero Bool.false_ne_true
  | some r => exact iff_of_true (PositiveScores.zero_lt_score r) rfl

/-- Word by word or not, a query gets the same grade. -/
theorem grade_eq [Add α] [DecidableLT α] (target query : String) :
    (grade target query : Grade α) = .ofScore? (score? target.toList query.toList) := by
  have positive : ((queryWords (normalize query.toList)).map
      (wordScore (normalize target.toList))).all (fun score => ((0 : Nat) : α) < score) =
        (queryWords (normalize query.toList)).all
          (fun w => (rung? (normalize target.toList) w).isSome) := by
    rw [List.all_map]
    refine List.all_congr rfl fun w => ?_
    rw [Bool.eq_iff_iff, Function.comp_apply, decide_eq_true_eq]
    exact wordScore_pos_iff (normalize target.toList) w
  rw [grade, gradeNormal, score?, scoreNormal?_eq]
  simp only [positive]
  split_ifs <;> rfl

end Positive

omit [WordDistance] in
instance positiveScoresOfBinary : PositiveScores Float where
  zero_lt_score := by rintro (_ | _ | _) <;> decide +kernel
  not_zero_lt_zero := by decide +kernel

section Exact

variable {α : Type} [Field α] [LinearOrder α] [IsStrictOrderedRing α]

omit [WordDistance] [LinearOrder α] [IsStrictOrderedRing α] in
private theorem score_rung (r : Rung) : (r.score : α) =
    match r with
    | .contained => 9 / 10
    | .affix => 7 / 10
    | .typo => 1 / 2 := by
  cases r <;> simp [Rung.score, Scalar.ratio]

omit [WordDistance] in
private theorem score_rung_mem (r : Rung) : (r.score : α) ∈ Set.Icc (1 / 2 : α) (9 / 10) := by
  rw [score_rung]
  cases r <;> constructor <;> norm_num

omit [WordDistance] in
instance positiveScoresOfField : PositiveScores α where
  zero_lt_score := fun r => by
    rw [Nat.cast_zero]
    exact lt_of_lt_of_le (by norm_num) (score_rung_mem r).1
  not_zero_lt_zero := lt_irrefl _

private theorem isGreatest_wordScore {word : List Char} (found : ∃ r, Attains target word r) :
    IsGreatest {x | ∃ r, Attains target word r ∧ r.score = x} (wordScore target word : α) := by
  have spec := rung?_spec target word
  obtain ⟨best, here⟩ := Option.isSome_iff_exists.mp (isSome_rung?_iff.mpr found)
  rw [here] at spec
  have score : (wordScore target word : α) = best.score := by
    rw [wordScore_eq, here]
    rfl
  have attained : Attains target word best := by
    cases best with
    | contained => exact spec
    | affix => exact spec.1
    | typo => exact spec.1
  refine ⟨⟨best, attained, score.symm⟩, ?_⟩
  rintro _ ⟨r, reached, rfl⟩
  rw [score, score_rung, score_rung]
  cases best with
  | contained => cases r <;> norm_num
  | affix =>
    cases r with
    | contained => exact absurd reached spec.2
    | affix => exact le_rfl
    | typo => norm_num
  | typo =>
    cases r with
    | contained => exact absurd reached spec.2.1
    | affix => exact absurd reached spec.2.2
    | typo => exact le_rfl

omit [WordDistance] [LinearOrder α] [IsStrictOrderedRing α] in
private theorem mean_eq (scores : List α) : mean scores = scores.sum / scores.length := by
  rw [mean, List.sum_eq_foldl, Nat.cast_zero]

omit [WordDistance] in
private theorem mean_mem {scores : List α} {low high : α} (nonempty : scores ≠ [])
    (within : ∀ score ∈ scores, score ∈ Set.Icc low high) : mean scores ∈ Set.Icc low high := by
  have count : (0 : α) < scores.length := Nat.cast_pos.mpr (List.length_pos_of_ne_nil nonempty)
  have least := List.card_nsmul_le_sum scores low fun score member => (within score member).1
  have most := List.sum_le_card_nsmul scores high fun score member => (within score member).2
  rw [nsmul_eq_mul, mul_comm] at least most
  rw [mean_eq]
  exact ⟨(le_div_iff₀ count).mpr least, (div_le_iff₀ count).mpr most⟩

omit [WordDistance] [LinearOrder α] [IsStrictOrderedRing α] in
private theorem score_contained : (Rung.contained.score : α) = 9 / 10 := score_rung .contained

private theorem mean_wordScore_mem (finds : FindsWords target query) :
    mean ((queryWords query).map (wordScore target)) ∈ Set.Icc (1 / 2 : α) (9 / 10) := by
  obtain ⟨⟨w, member, long⟩, each⟩ := finds
  have listed : w ∈ queryWords query := (mem_queryWords_iff query w).mpr ⟨member, long⟩
  refine mean_mem (fun empty => List.ne_nil_of_mem listed (List.map_eq_nil_iff.mp empty)) ?_
  intro score inside
  obtain ⟨v, counts, rfl⟩ := List.mem_map.mp inside
  obtain ⟨present, long⟩ := (mem_queryWords_iff query v).mp counts
  obtain ⟨r, -, same⟩ := (isGreatest_wordScore (α := α) (each v present long)).1
  exact same ▸ score_rung_mem r

omit [LinearOrder α] [IsStrictOrderedRing α] in
private theorem scoreNormal?_eq_some_iff {score : α} : scoreNormal? target query = some score ↔
    HasText target ∧ HasText query ∧ (target = query ∧ score = 1 ∨
      query <:+: target ∧ target ≠ query ∧ score = 9 / 10 ∨
      ¬ query <:+: target ∧ FindsWords target query ∧
        score = mean ((queryWords query).map (wordScore target))) := by
  by_cases visible : HasText target ∧ HasText query
  · rw [and_iff_right visible.1, and_iff_right visible.2]
    by_cases inside : query <:+: target
    · rw [scoreNormal?_of_hasText visible.1 visible.2, if_pos ((occursIn_iff _ _).mpr inside)]
      by_cases same : target = query
      · simp [same, eq_comm]
      · simp [same, inside, score_contained, eq_comm]
    · have unequal : target ≠ query := by
        rintro rfl
        exact inside (List.infix_refl _)
      by_cases finds : FindsWords target query
      · rw [scoreNormal?_eq_mean visible.1 visible.2 inside finds]
        simp [unequal, inside, finds, eq_comm]
      · have missed : (scoreNormal? target query : Option α).isSome = false := by
          rw [← Bool.not_eq_true, isSome_scoreNormal?_iff]
          simp [inside, finds]
        rw [Option.isSome_eq_false_iff, Option.isNone_iff_eq_none] at missed
        simp [missed, unequal, inside, finds]
  · rw [scoreNormal?_of_blank visible]
    exact iff_of_false (Option.some_ne_none score).symm fun all => visible ⟨all.1, all.2.1⟩

theorem scoreNormal?_mem {score : α} (found : scoreNormal? target query = some score) :
    score = 1 ∧ target = query ∨ score ∈ Set.Icc (1 / 2 : α) (9 / 10) ∧ target ≠ query := by
  obtain ⟨-, -, ⟨same, rfl⟩ | ⟨-, apart, rfl⟩ | ⟨apart, finds, rfl⟩⟩ :=
    scoreNormal?_eq_some_iff.mp found
  · exact Or.inl ⟨rfl, same⟩
  · exact Or.inr ⟨⟨by norm_num, le_rfl⟩, apart⟩
  · refine Or.inr ⟨mean_wordScore_mem finds, ?_⟩
    rintro rfl
    exact apart (List.infix_refl _)

end Exact

/-- What a query scores against a text, both in the form in which they are compared. -/
structure IsScoredAs (t q : List Char) (result : Option ℚ) : Prop where
  isSome_iff : result.isSome ↔ HasText t ∧ HasText q ∧
    (q <:+: t ∨ (∃ w ∈ words q, 2 ≤ w.length) ∧
      ∀ w ∈ words q, 2 ≤ w.length → w <:+: t ∨
        ∃ v ∈ words t, w <+: v ∨ v <+: w ∨ IsTypo v w)
  eq_one_iff : result = some 1 ↔ t = q ∧ HasText q
  of_part : HasText q → q <:+: t → q ≠ t → result = some (9 / 10)
  of_words : ∀ score, result = some score → ¬ q <:+: t → ∃ best : List Char → ℚ,
    (∀ w ∈ queryWords q, IsGreatest {x | ∃ r, Attains t w r ∧ r.score = x} (best w)) ∧
    score = ((queryWords q).map best).sum / (queryWords q).length
  mem_Icc : ∀ score, result = some score → score ≠ 1 → score ∈ Set.Icc (1 / 2) (9 / 10)
  eq_zero_iff : result.getD 0 = 0 ↔ result = none

theorem isScoredAs_scoreNormal? (t q : List Char) : IsScoredAs t q (scoreNormal? t q) where
  isSome_iff := by
    simp only [← exists_attains_iff]
    exact isSome_scoreNormal?_iff
  eq_one_iff := by
    constructor
    · intro one
      rcases scoreNormal?_mem one with ⟨-, same⟩ | ⟨within, -⟩
      · exact ⟨same, (scoreNormal?_eq_some_iff.mp one).2.1⟩
      · exact absurd within.2 (by norm_num)
    · rintro ⟨same, visible⟩
      have visible' : HasText t := by rwa [same]
      exact scoreNormal?_eq_some_iff.mpr ⟨visible', visible, Or.inl ⟨same, rfl⟩⟩
  of_part := fun visible inside apart =>
    scoreNormal?_eq_some_iff.mpr ⟨hasText_of_part inside visible, visible,
      Or.inr (Or.inl ⟨inside, Ne.symm apart, rfl⟩)⟩
  of_words := by
    intro score scored apart
    obtain ⟨-, -, ⟨rfl, -⟩ | ⟨inside, -⟩ | ⟨-, finds, rfl⟩⟩ := scoreNormal?_eq_some_iff.mp scored
    · exact absurd (List.infix_refl t) apart
    · exact absurd inside apart
    · refine ⟨wordScore t, fun w member => ?_, by rw [mean_eq, List.length_map]⟩
      obtain ⟨present, long⟩ := (mem_queryWords_iff q w).mp member
      exact isGreatest_wordScore (finds.2 w present long)
  mem_Icc := by
    intro score scored less
    rcases scoreNormal?_mem scored with ⟨one, -⟩ | ⟨within, -⟩
    · exact absurd one less
    · exact within
  eq_zero_iff := by
    cases scored : (scoreNormal? t q : Option ℚ) with
    | none => simp
    | some score =>
      refine iff_of_false ?_ (Option.some_ne_none score)
      rcases scoreNormal?_mem scored with ⟨rfl, -⟩ | ⟨within, -⟩
      · exact one_ne_zero
      · exact (lt_of_lt_of_le (by norm_num) within.1).ne'

/-- A query matches a text, in the form in which they are compared, if neither is blank and the
query is a part of the text or all its words of two characters or more are found, of which there
has to be one. The score is one for an equal text and nine tenths for a proper part; otherwise it
is the mean over these words of the best ways in which they are found anywhere in the text. -/
theorem score?_characterized (target query : String) :
    scoreValue? (.text target) (.text query) =
      .ok (score? target.toList query.toList : Option ℚ) ∧
    (grade target query : Grade ℚ) = .ofScore? (score? target.toList query.toList) ∧
    IsScoredAs (normalize target.toList) (normalize query.toList)
      (score? target.toList query.toList) :=
  ⟨scoreValue?_text target query, grade_eq target query, isScoredAs_scoreNormal? _ _⟩

end Distance

-- One word is a part of the text, one a typo; the single letter does not count.
example : (score? "read_files".toList "Files reed a".toList : Option ℚ) = some (7 / 10) := by
  decide +kernel

end CapabilityAtlas.Search
