import CapabilityAtlas.Geometry.Component
import CapabilityAtlas.Proofs.Grouping
import Mathlib.Data.List.GetD
import Mathlib.Data.List.Nodup
import Mathlib.Data.List.Pairwise
import Mathlib.Logic.Relation

set_option autoImplicit false
set_option relaxedAutoImplicit false

/-!
The labels of components. Every number is labelled by the least of its component: joining keeps the
labels in this form, and numbers get one label exactly if pairs connect numbers that had one before.
In the end the numbers of one label are those that are connected, each component in a list of its
own, and numbers of different components are not related.
-/

namespace CapabilityAtlas.Geometry

variable {n i j : Nat} {labels : List Nat} {related : Nat → Nat → Bool}

/-- Whether numbers end up in one class exactly if pairs connect numbers that started in one. -/
def Connects (pairs : List (Nat × Nat)) (start stop : Nat → Nat) : Prop :=
  ∀ a b, stop a = stop b ↔
    Relation.EqvGen (fun a b => start a = start b ∨ (a, b) ∈ pairs) a b

namespace Connects

variable {pairs later : List (Nat × Nat)} {start middle stop : Nat → Nat}

private theorem refl (start : Nat → Nat) : Connects [] start start := by
  intro a b
  constructor
  · exact fun same => .rel a b (Or.inl same)
  · intro linked
    induction linked with
    | rel a b step => simpa using step
    | refl a => rfl
    | symm a b _ ih => exact ih.symm
    | trans a b c _ _ ih ih' => exact ih.trans ih'

private theorem trans (first : Connects pairs start middle) (second : Connects later middle stop) :
    Connects (pairs ++ later) start stop := by
  intro a b
  rw [second a b]
  constructor
  · intro linked
    induction linked with
    | rel a b step =>
      rcases step with same | pair
      · apply Relation.EqvGen.mono _ _ _ ((first a b).mp same)
        rintro a b (same | pair)
        · exact Or.inl same
        · exact Or.inr (List.mem_append_left _ pair)
      · exact .rel a b (Or.inr (List.mem_append_right _ pair))
    | refl a => exact .refl a
    | symm a b _ ih => exact ih.symm
    | trans a b c _ _ ih ih' => exact ih.trans _ _ _ ih'
  · intro linked
    induction linked with
    | rel a b step =>
      rcases step with same | pair
      · exact .rel a b (Or.inl ((first a b).mpr (.rel a b (Or.inl same))))
      · rcases List.mem_append.mp pair with earlier | after
        · exact .rel a b (Or.inl ((first a b).mpr (.rel a b (Or.inr earlier))))
        · exact .rel a b (Or.inr after)
    | refl a => exact .refl a
    | symm a b _ ih => exact ih.symm
    | trans a b c _ _ ih ih' => exact ih.trans _ _ _ ih'

/-- Giving the members of one class those of another one's connects a member of each. -/
theorem of_step {i j u v : Nat} (ends : u = start i ∧ v = start j ∨ u = start j ∧ v = start i)
    (step : ∀ a, stop a = if start a = u then v else start a) : Connects [(i, j)] start stop := by
  intro a b
  have alike : ∀ {a b}, start a = start b →
      Relation.EqvGen (fun a b => start a = start b ∨ (a, b) ∈ [(i, j)]) a b :=
    fun same => .rel _ _ (Or.inl same)
  have joined : Relation.EqvGen (fun a b => start a = start b ∨ (a, b) ∈ [(i, j)]) i j :=
    .rel i j (Or.inr (List.mem_singleton_self _))
  constructor
  · intro same
    obtain ⟨p, q, rfl, rfl, bridge⟩ : ∃ p q, u = start p ∧ v = start q ∧
        Relation.EqvGen (fun a b => start a = start b ∨ (a, b) ∈ [(i, j)]) p q := by
      rcases ends with ⟨hu, hv⟩ | ⟨hu, hv⟩
      · exact ⟨i, j, hu, hv, joined⟩
      · exact ⟨j, i, hu, hv, joined.symm⟩
    rw [step a, step b] at same
    by_cases ha : start a = start p
    · by_cases hb : start b = start p
      · exact alike (ha.trans hb.symm)
      · rw [if_pos ha, if_neg hb] at same
        exact (alike ha).trans _ _ _ (bridge.trans _ _ _ (alike same))
    · by_cases hb : start b = start p
      · rw [if_neg ha, if_pos hb] at same
        exact (alike same).trans _ _ _ (bridge.symm.trans _ _ _ (alike hb.symm))
      · rw [if_neg ha, if_neg hb] at same
        exact alike same
  · intro linked
    induction linked with
    | rel a b bond =>
      rw [step a, step b]
      rcases bond with same | pair
      · rw [same]
      · obtain ⟨rfl, rfl⟩ : a = i ∧ b = j := by simpa using pair
        rcases ends with ⟨rfl, rfl⟩ | ⟨rfl, rfl⟩
        · simp
        · simp
    | refl a => rfl
    | symm a b _ ih => exact ih.symm
    | trans a b c _ _ ih ih' => exact ih.trans ih'

theorem foldl {σ : Type} {good : σ → Prop} {classes : σ → Nat → Nat} {step : σ → Nat × Nat → σ}
    {s : σ} (hs : good s) (each : ∀ s, good s → ∀ p ∈ pairs,
      good (step s p) ∧ Connects [p] (classes s) (classes (step s p))) :
    good (pairs.foldl step s) ∧ Connects pairs (classes s) (classes (pairs.foldl step s)) := by
  induction pairs generalizing s with
  | nil => exact ⟨hs, refl _⟩
  | cons p rest ih =>
    obtain ⟨next, joined⟩ := each s hs p List.mem_cons_self
    obtain ⟨last, others⟩ := ih next fun s hs q member =>
      each s hs q (List.mem_cons_of_mem p member)
    exact ⟨last, joined.trans others⟩

end Connects

/-- Labels of the numbers below a bound: each is the number itself or a lesser one that is labelled
by itself. A number without a label counts as labelled by itself. -/
structure Labelling (n : Nat) (labels : List Nat) : Prop where
  length : labels.length = n
  le : ∀ k, labelOf labels k ≤ k
  own : ∀ k, labelOf labels (labelOf labels k) = labelOf labels k

private theorem labelOf_range (k : Nat) : labelOf (List.range n) k = k := by
  unfold labelOf
  by_cases below : k < n
  · rw [List.getD_eq_getElem _ _ (by simpa using below), List.getElem_range]
  · exact List.getD_eq_default _ _ (by simpa using below)

private theorem labelling_range : Labelling n (List.range n) := by
  refine ⟨List.length_range, fun k => ?_, fun k => ?_⟩
  · exact Nat.le_of_eq (labelOf_range k)
  · rw [labelOf_range, labelOf_range]

private theorem labelOf_join (labelling : Labelling n labels) (hi : i < n) (hj : j < n) (k : Nat) :
    labelOf (join labels i j) k =
      if labelOf labels k = max (labelOf labels i) (labelOf labels j)
      then min (labelOf labels i) (labelOf labels j) else labelOf labels k := by
  by_cases below : k < labels.length
  · simp only [join, labelOf, List.getD_eq_getElem?_getD, List.getElem?_map,
      List.getElem?_eq_getElem below, Option.map_some, Option.getD_some]
  · -- Beyond the bound nothing is labelled, and no label of the two numbers reaches there.
    have first := labelling.le i
    have second := labelling.le j
    have bound := labelling.length
    have before : labelOf labels k = k := List.getD_eq_default _ _ (by omega)
    have after : labelOf (join labels i j) k = k :=
      List.getD_eq_default _ _ (by rw [join, List.length_map]; omega)
    rw [after, before, if_neg (by omega)]

namespace Labelling

private theorem join (labelling : Labelling n labels) (hi : i < n) (hj : j < n) :
    Labelling n (join labels i j) := by
  refine ⟨?_, fun k => ?_, fun k => ?_⟩
  · rw [Geometry.join, List.length_map]
    exact labelling.length
  · have le := labelling.le k
    rw [labelOf_join labelling hi hj]
    split <;> omega
  · have ownI := labelling.own i
    have ownJ := labelling.own j
    have ownK := labelling.own k
    have low : labelOf labels (min (labelOf labels i) (labelOf labels j)) =
        min (labelOf labels i) (labelOf labels j) := by
      rcases Nat.le_total (labelOf labels i) (labelOf labels j) with h | h
      · rw [Nat.min_eq_left h, ownI]
      · rw [Nat.min_eq_right h, ownJ]
    simp only [labelOf_join labelling hi hj]
    by_cases high : labelOf labels k = max (labelOf labels i) (labelOf labels j)
    · rw [if_pos high, low, ite_eq_right_iff]
      exact fun _ => rfl
    · rw [if_neg high, ownK, if_neg high]

private theorem connects_join (labelling : Labelling n labels) (hi : i < n) (hj : j < n) :
    Connects [(i, j)] (labelOf labels) (labelOf (Geometry.join labels i j)) := by
  apply Connects.of_step _ (labelOf_join labelling hi hj)
  omega

end Labelling

private theorem mem_orderedPairs_iff : (i, j) ∈ orderedPairs n ↔ i < j ∧ j < n := by
  simp only [orderedPairs, List.mem_flatMap, List.mem_map, List.mem_filter, List.mem_range,
    decide_eq_true_eq, Prod.mk.injEq]
  constructor
  · rintro ⟨a, -, b, ⟨below, above⟩, rfl, rfl⟩
    exact ⟨above, below⟩
  · rintro ⟨above, below⟩
    exact ⟨i, by omega, j, ⟨below, above⟩, rfl, rfl⟩

theorem mem_related_pairs_iff :
    (i, j) ∈ (orderedPairs n).filter (fun p => related p.1 p.2) ↔
      i < j ∧ j < n ∧ related i j := by
  rw [List.mem_filter, mem_orderedPairs_iff, and_assoc]

/-- In the end the numbers of one label are those that related pairs connect. -/
theorem connects_componentLabels (n : Nat) (related : Nat → Nat → Bool) :
    Labelling n (componentLabels n related) ∧
      Connects ((orderedPairs n).filter (fun p => related p.1 p.2)) id
        (labelOf (componentLabels n related)) := by
  have start : labelOf (List.range n) = id := funext labelOf_range
  rw [← start]
  apply Connects.foldl labelling_range
  rintro labels labelling ⟨i, j⟩ pair
  obtain ⟨above, below, -⟩ := mem_related_pairs_iff.mp pair
  have first : i < n := by omega
  exact ⟨labelling.join first below, labelling.connects_join first below⟩

theorem labelling_componentLabels (n : Nat) (related : Nat → Nat → Bool) :
    Labelling n (componentLabels n related) ∧ ∀ i j, i < j → j < n → related i j →
      labelOf (componentLabels n related) i = labelOf (componentLabels n related) j := by
  obtain ⟨labelling, connects⟩ := connects_componentLabels n related
  refine ⟨labelling, fun i j above below holds => ?_⟩
  exact (connects i j).mpr (.rel i j (Or.inr (mem_related_pairs_iff.mpr ⟨above, below, holds⟩)))

theorem labelOf_componentLabels_eq_iff :
    labelOf (componentLabels n related) i = labelOf (componentLabels n related) j ↔
      Relation.EqvGen (fun i j => i < j ∧ j < n ∧ related i j) i j := by
  rw [(connects_componentLabels n related).2 i j]
  constructor
  · intro linked
    induction linked with
    | rel a b step =>
      rcases step with same | pair
      · obtain rfl : a = b := same
        exact .refl a
      · exact .rel a b (mem_related_pairs_iff.mp pair)
    | refl a => exact .refl a
    | symm a b _ ih => exact ih.symm
    | trans a b c _ _ ih ih' => exact ih.trans _ _ _ ih'
  · apply Relation.EqvGen.mono
    exact fun a b step => Or.inr (mem_related_pairs_iff.mpr step)

theorem mem_iff_of_mem_components {part : List Nat} (member : part ∈ components n related)
    (inside : i ∈ part) (below : j < n) :
    j ∈ part ↔ Relation.EqvGen (fun i j => i < j ∧ j < n ∧ related i j) i j := by
  obtain ⟨least, -, rfl⟩ := List.mem_map.mp member
  have label : labelOf (componentLabels n related) i = least := by
    simpa using (List.mem_filter.mp inside).2
  rw [← labelOf_componentLabels_eq_iff, label, eq_comm]
  simp [below]

theorem perm_flatten_components (n : Nat) (related : Nat → Nat → Bool) :
    (components n related).flatten.Perm (List.range n) := by
  have labelling := (connects_componentLabels n related).1
  unfold components
  rw [← List.flatMap_def]
  apply perm_flatMap_filter _ (List.nodup_range.filter _)
  intro k member
  have below := labelling.le k
  have bound := List.mem_range.mp member
  rw [List.mem_filter, List.mem_range, decide_eq_true_eq]
  exact ⟨by omega, labelling.own k⟩

theorem pairwise_lt_of_mem_components {part : List Nat} (member : part ∈ components n related) :
    part.Pairwise (· < ·) := by
  obtain ⟨least, -, rfl⟩ := List.mem_map.mp member
  exact List.pairwise_lt_range.filter _

private theorem head?_filter_range {label : Nat → Nat} (le : ∀ k, label k ≤ k) {least : Nat}
    (below : least < n) (own : label least = least) :
    ((List.range n).filter (fun k => label k = least)).head? = some least := by
  rw [List.head?_filter, List.find?_range_eq_some]
  refine ⟨by simpa using own, List.mem_range.mpr below, fun k less => ?_⟩
  have first := le k
  simp only [Bool.not_eq_true', decide_eq_false_iff_not]
  omega

theorem pairwise_head?_components (n : Nat) (related : Nat → Nat → Bool) :
    (components n related).Pairwise (fun part other =>
      ∃ i ∈ part.head?, ∃ j ∈ other.head?, i < j) := by
  have labelling := (connects_componentLabels n related).1
  have head : ∀ {least}, least ∈ (List.range n).filter
      (fun i => labelOf (componentLabels n related) i = i) →
        ((List.range n).filter (fun i => labelOf (componentLabels n related) i = least)).head? =
          some least := by
    intro least member
    obtain ⟨below, own⟩ := List.mem_filter.mp member
    exact head?_filter_range labelling.le (List.mem_range.mp below) (by simpa using own)
  unfold components
  rw [List.pairwise_map]
  refine (List.pairwise_lt_range.filter _).imp_of_mem ?_
  intro least later member member' less
  exact ⟨least, head member, later, head member', less⟩

theorem lt_of_mem_components {part : List Nat} (member : part ∈ components n related)
    (inside : i ∈ part) : i < n := by
  obtain ⟨least, -, rfl⟩ := List.mem_map.mp member
  exact List.mem_range.mp (List.mem_filter.mp inside).1

theorem ne_nil_of_mem_components {part : List Nat} (member : part ∈ components n related) :
    part ≠ [] := by
  obtain ⟨least, listed, rfl⟩ := List.mem_map.mp member
  obtain ⟨below, own⟩ := List.mem_filter.mp listed
  exact List.ne_nil_of_mem (List.mem_filter.mpr ⟨below, own⟩)

theorem pairwise_components (comm : ∀ i j, related i j = related j i) :
    (components n related).Pairwise (fun part other =>
      ∀ i ∈ part, ∀ j ∈ other, i ≠ j ∧ related i j = false) := by
  have joined := (labelling_componentLabels n related).2
  have leasts : ((List.range n).filter
      (fun i => labelOf (componentLabels n related) i = i)).Nodup := List.nodup_range.filter _
  unfold components
  rw [List.pairwise_map]
  refine leasts.imp ?_
  intro least other apart i inside j inside'
  simp only [List.mem_filter, List.mem_range, decide_eq_true_eq] at inside inside'
  obtain ⟨belowI, labelI⟩ := inside
  obtain ⟨belowJ, labelJ⟩ := inside'
  have labels : labelOf (componentLabels n related) i ≠ labelOf (componentLabels n related) j := by
    rw [labelI, labelJ]
    exact apart
  refine ⟨fun same => labels (same ▸ rfl), Bool.eq_false_iff.mpr fun holds => ?_⟩
  rcases Nat.lt_trichotomy i j with less | same | more
  · exact labels (joined i j less belowJ holds)
  · exact labels (same ▸ rfl)
  · rw [comm] at holds
    exact labels (joined j i more belowI holds).symm

theorem components_of_unrelated (unrelated : ∀ i j, i < j → j < n → related i j = false) :
    components n related = (List.range n).map (fun i => [i]) := by
  have pairs : (orderedPairs n).filter (fun p => related p.1 p.2) = [] := by
    rw [List.filter_eq_nil_iff]
    rintro ⟨i, j⟩ member
    obtain ⟨above, below⟩ := mem_orderedPairs_iff.mp member
    simp [unrelated i j above below]
  have labels : componentLabels n related = List.range n := by
    rw [componentLabels, pairs]
    rfl
  have single : ∀ i ∈ List.range n, (List.range n).filter (fun k => k = i) = [i] := by
    intro i member
    rw [List.filter_eq, List.nodup_range.count, if_pos member]
    rfl
  unfold components
  simp only [labels, labelOf_range, decide_true, List.filter_true]
  exact List.map_congr_left single

theorem length_components_lt (above : i < j) (below : j < n) (holds : related i j) :
    (components n related).length < n := by
  obtain ⟨labelling, joined⟩ := labelling_componentLabels n related
  have label : labelOf (componentLabels n related) j ≠ j := by
    have le := labelling.le i
    have same := joined i j above below holds
    omega
  rw [components, List.length_map]
  calc ((List.range n).filter (fun i => labelOf (componentLabels n related) i = i)).length
      < (List.range n).length := by
        refine List.length_filter_lt_length_iff_exists.mpr ⟨j, List.mem_range.mpr below, ?_⟩
        simpa using label
    _ = n := List.length_range

end CapabilityAtlas.Geometry
