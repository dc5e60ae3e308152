import CapabilityAtlas.Keyed
import CapabilityAtlas.Scalar
import Mathlib.Data.List.Nodup
import Mathlib.Order.Lattice

set_option autoImplicit false
set_option relaxedAutoImplicit false

/-!
Exact numbers. All of them are defined, and which of two equal ones is taken makes no difference.
-/

namespace CapabilityAtlas.Scalar

variable {α : Type} [LinearOrder α]

theorem smaller_eq_min (a b : α) : smaller a b = min a b := by
  rw [smaller, min_comm, min_def_lt]

theorem larger_eq_max (a b : α) : larger a b = max a b := by
  rw [larger, max_def_lt]

theorem defined_eq_true (a : α) : defined a = true :=
  decide_eq_true (le_refl a)

end CapabilityAtlas.Scalar

/-!
Sorted lists do not show in which order their entries came, as long as no two entries have the same
key. Sorted twice, entries that the second sort ties stay in the order of the first.
-/

namespace CapabilityAtlas.Order

theorem textLe_trans (a b c : String) (first : textLe a b) (second : textLe b c) : textLe a c := by
  simp only [textLe, decide_eq_true_eq] at first second ⊢
  exact String.le_trans first second

theorem textLe_total (a b : String) : textLe a b || textLe b a := by
  simpa [textLe] using String.le_total a b

theorem pairLe_iff {a b : String × String} :
    pairLe a b ↔ a.1 < b.1 ∨ a.1 = b.1 ∧ a.2 ≤ b.2 := by
  simp [pairLe, textLe]

theorem pairLe_trans (a b c : String × String) (first : pairLe a b) (second : pairLe b c) :
    pairLe a c := by
  rw [pairLe_iff] at first second ⊢
  rcases first with less | ⟨same, le⟩
  · rcases second with less' | ⟨same', -⟩
    · exact Or.inl (String.lt_trans less less')
    · exact Or.inl (same' ▸ less)
  · rw [same]
    rcases second with less' | ⟨same', le'⟩
    · exact Or.inl less'
    · exact Or.inr ⟨same', String.le_trans le le'⟩

theorem pairLe_total (a b : String × String) : pairLe a b || pairLe b a := by
  rw [Bool.or_eq_true, pairLe_iff, pairLe_iff]
  by_cases below : a.1 < b.1
  · exact Or.inl (Or.inl below)
  · by_cases above : b.1 < a.1
    · exact Or.inr (Or.inl above)
    · have same := String.le_antisymm (String.not_lt.mp above) (String.not_lt.mp below)
      rcases String.le_total a.2 b.2 with le | le
      · exact Or.inl (Or.inr ⟨same, le⟩)
      · exact Or.inr (Or.inr ⟨same.symm, le⟩)

theorem snd_eq_of_pairLe {a b : String × String} (first : pairLe a b) (second : pairLe b a) :
    a.2 = b.2 := by
  rw [pairLe_iff] at first second
  rcases first with less | ⟨same, le⟩
  · rcases second with less' | ⟨same, -⟩
    · exact (String.lt_irrefl _ (String.lt_trans less less')).elim
    · exact (String.lt_irrefl _ (same ▸ less)).elim
  · rcases second with less' | ⟨-, le'⟩
    · exact (String.lt_irrefl _ (same ▸ less')).elim
    · exact String.le_antisymm le le'

section Twice

variable {α : Type} {le le' : α → α → Bool} (trans : ∀ a b c, le a b → le b c → le a c)
  (total : ∀ a b, le a b || le b a)

include trans total

private theorem filter_mergeSort_tied (a : α) (entries : List α) :
    (entries.mergeSort le).filter (fun m => le a m && le m a) =
      entries.filter (fun m => le a m && le m a) := by
  have tied : ∀ m ∈ entries.filter (fun m => le a m && le m a), le a m ∧ le m a := by
    intro m member
    exact (Bool.and_eq_true _ _).mp (List.mem_filter.mp member).2
  have ordered : (entries.filter (fun m => le a m && le m a)).Pairwise (fun m n => le m n) := by
    refine List.pairwise_of_forall_mem_list fun m hm n hn => ?_
    exact trans m a n (tied m hm).2 (tied n hn).1
  have kept := (List.sublist_mergeSort trans total ordered List.filter_sublist).filter
    (fun m => le a m && le m a)
  rw [List.filter_filter] at kept
  simp only [Bool.and_self] at kept
  exact (kept.eq_of_length ((List.mergeSort_perm entries le).filter _).length_eq.symm).symm

/-- Entries that are sorted twice are in the order of the second sort, and where that ties in the
order of the first. -/
theorem pairwise_mergeSort_mergeSort (trans' : ∀ a b c, le' a b → le' b c → le' a c)
    (total' : ∀ a b, le' a b || le' b a) (entries : List α) :
    ((entries.mergeSort le').mergeSort le).Pairwise (fun a b => le a b ∧ (le b a → le' a b)) := by
  rw [List.pairwise_iff_forall_sublist]
  intro a b inside
  have before : le a b :=
    List.pairwise_iff_forall_sublist.mp (List.pairwise_mergeSort trans total _) inside
  refine ⟨before, fun after => ?_⟩
  have own : le a a := by simpa using total a a
  have both := inside.filter (fun m => le a m && le m a)
  rw [filter_mergeSort_tied trans total] at both
  simp only [List.filter_cons, own, before, after, Bool.and_self, if_true, List.filter_nil] at both
  exact List.pairwise_iff_forall_sublist.mp
    ((List.pairwise_mergeSort trans' total' entries).filter _) both

end Twice

/-- Sorting by what is known of the entries does not show in which order they came, if those that
tie are known alike. -/
theorem map_mergeSort_eq_of_perm {α β : Type} {key : α → β} {le : α → α → Bool}
    (trans : ∀ a b c, le a b → le b c → le a c) (total : ∀ a b, le a b || le b a)
    (known : ∀ a a' b b', key a = key a' → key b = key b' → le a b = le a' b') {xs ys : List α}
    (perm : (xs.map key).Perm (ys.map key))
    (distinct : ∀ a ∈ xs, ∀ b ∈ xs, le a b → le b a → key a = key b) :
    (xs.mergeSort le).map key = (ys.mergeSort le).map key := by
  have sorted : ∀ entries : List α, ((entries.mergeSort le).map key).Pairwise
      (fun f g => ∃ a b, key a = f ∧ key b = g ∧ le a b) := by
    intro entries
    rw [List.pairwise_map]
    exact (List.pairwise_mergeSort trans total entries).imp fun {a b} le => ⟨a, b, rfl, rfl, le⟩
  refine List.Perm.eq_of_pairwise ?_ (sorted xs) (sorted ys)
    (((List.mergeSort_perm xs _).map key).trans
      (perm.trans ((List.mergeSort_perm ys _).map key).symm))
  intro f g inXs inYs before after
  obtain ⟨a, listed, rfl⟩ := List.mem_map.mp inXs
  obtain ⟨b, listed', rfl⟩ : ∃ b ∈ xs, key b = g := by
    have inXs' := ((List.mergeSort_perm ys _).map key).mem_iff.mp inYs
    exact List.mem_map.mp (perm.mem_iff.mpr inXs')
  obtain ⟨a', b', sameA, sameB, le⟩ := before
  obtain ⟨b'', a'', sameB', sameA', ge⟩ := after
  rw [known a' a b' b sameA sameB] at le
  rw [known b'' b a'' a sameB' sameA'] at ge
  exact distinct a (List.mem_mergeSort.mp listed) b listed' le ge

theorem mergeSort_eq_of_perm {α : Type} {le : α → α → Bool}
    (trans : ∀ a b c, le a b → le b c → le a c) (total : ∀ a b, le a b || le b a) {xs ys : List α}
    (perm : xs.Perm ys) (distinct : ∀ a ∈ xs, ∀ b ∈ xs, le a b → le b a → a = b) :
    xs.mergeSort le = ys.mergeSort le := by
  have known : ∀ a a' b b', id a = id a' → id b = id b' → le a b = le a' b' := by
    rintro a _ b _ rfl rfl
    rfl
  have same := map_mergeSort_eq_of_perm trans total known (perm.map id) distinct
  rwa [List.map_id, List.map_id] at same

theorem mergeSort_congr {α : Type} {le le' : α → α → Bool} {xs : List α}
    (same : ∀ a ∈ xs, ∀ b ∈ xs, le a b = le' a b) : xs.mergeSort le = xs.mergeSort le' := by
  have mapped := List.map_mergeSort (f := id) same
  rwa [List.map_id, List.map_id] at mapped

theorem perm_sortTexts (texts : List String) : (sortTexts texts).Perm texts :=
  List.mergeSort_perm texts textLe

theorem mem_sortTexts {text : String} {texts : List String} :
    text ∈ sortTexts texts ↔ text ∈ texts :=
  List.mem_mergeSort

theorem pairwise_sortTexts (texts : List String) : (sortTexts texts).Pairwise (· ≤ ·) :=
  (List.pairwise_mergeSort textLe_trans textLe_total texts).imp of_decide_eq_true

theorem sortTexts_eq_of_perm {xs ys : List String} (perm : xs.Perm ys) :
    sortTexts xs = sortTexts ys := by
  refine mergeSort_eq_of_perm textLe_trans textLe_total perm fun a _ b _ le ge => ?_
  simp only [textLe, decide_eq_true_eq] at le ge
  exact String.le_antisymm le ge

theorem sortByTexts_eq_of_perm {α : Type} {key : α → String × String} {xs ys : List α}
    (perm : xs.Perm ys) (distinct : (xs.map (fun x => (key x).2)).Nodup) :
    sortByTexts key xs = sortByTexts key ys := by
  refine mergeSort_eq_of_perm (fun a b c => pairLe_trans (key a) (key b) (key c))
    (fun a b => pairLe_total (key a) (key b)) perm fun a inXs b inXs' le ge => ?_
  exact List.inj_on_of_nodup_map distinct inXs inXs' (snd_eq_of_pairLe le ge)

theorem perm_sortByTexts {α : Type} (key : α → String × String) (xs : List α) :
    (sortByTexts key xs).Perm xs :=
  List.mergeSort_perm xs _

theorem pairwise_sortByTexts {α : Type} (key : α → String × String) (xs : List α) :
    (sortByTexts key xs).Pairwise (fun a b => pairLe (key a) (key b)) :=
  List.pairwise_mergeSort (fun a b c => pairLe_trans (key a) (key b) (key c))
    (fun a b => pairLe_total (key a) (key b)) xs

theorem map_sortByTexts {α β : Type} {key : α → String × String} {view : α → β}
    {key' : β → String × String} (reads : ∀ x, key' (view x) = key x) (xs : List α) :
    (sortByTexts key xs).map view = sortByTexts key' (xs.map view) := by
  refine List.map_mergeSort fun a _ b _ => ?_
  rw [reads, reads]

end CapabilityAtlas.Order
