import CapabilityAtlas.Geometry.Point
import Mathlib.Data.List.Nodup
import Mathlib.Data.List.Perm.Subperm
import Mathlib.Data.List.Zip

set_option autoImplicit false
set_option relaxedAutoImplicit false

/-!
Lists that are read as closed. Every member has one successor, the first member being that of the
last, and the sides lead from each member to its successor. Where a list is put together from runs,
its sides are those inside the runs and those from the end of a run to the start of the next.
-/

namespace CapabilityAtlas.Geometry

variable {β γ : Type}

private theorem successors_cons (a : β) (rest : List β) : successors (a :: rest) = rest ++ [a] := by
  cases rest with
  | nil => rfl
  | cons b rest => simp [successors, List.rotateLeft]

private theorem predecessors_concat (front : List β) (z : β) :
    predecessors (front ++ [z]) = z :: front := by
  cases front with
  | nil => rfl
  | cons a front =>
    have long : ¬ (a :: front ++ [z]).length ≤ 1 := by simp
    have place : (a :: front ++ [z]).length - 1 % (a :: front ++ [z]).length =
        (a :: front).length := by
      rw [Nat.mod_eq_of_lt (by simp)]
      simp
    rw [predecessors, List.rotateRight, if_neg long]
    simp only [place, List.take_left, List.drop_left]
    rfl

private theorem predecessors_successors (l : List β) : predecessors (successors l) = l := by
  cases l with
  | nil => rfl
  | cons a rest => rw [successors_cons, predecessors_concat]

private theorem successors_predecessors (l : List β) : successors (predecessors l) = l := by
  rcases List.eq_nil_or_concat l with rfl | ⟨front, z, rfl⟩
  · rfl
  · rw [List.concat_eq_append, predecessors_concat, successors_cons]

private theorem successors_reverse (l : List β) :
    successors l.reverse = (predecessors l).reverse := by
  rcases List.eq_nil_or_concat l with rfl | ⟨front, z, rfl⟩
  · rfl
  · rw [List.concat_eq_append, List.reverse_concat, successors_cons, predecessors_concat,
      List.reverse_cons]

theorem perm_successors (l : List β) : (successors l).Perm l := by
  cases l with
  | nil => exact List.Perm.refl _
  | cons a rest =>
    rw [successors_cons]
    exact List.perm_append_singleton a rest

theorem perm_predecessors (l : List β) : (predecessors l).Perm l := by
  have turned := perm_successors (predecessors l)
  rw [successors_predecessors] at turned
  exact turned.symm

@[simp] theorem length_successors (l : List β) : (successors l).length = l.length :=
  (perm_successors l).length_eq

@[simp] theorem length_predecessors (l : List β) : (predecessors l).length = l.length :=
  (perm_predecessors l).length_eq

@[simp] theorem length_sides (l : List β) : (sides l).length = l.length := by
  rw [sides, List.length_zip, length_successors, Nat.min_self]

theorem successors_map (f : β → γ) (l : List β) : successors (l.map f) = (successors l).map f := by
  cases l with
  | nil => rfl
  | cons a rest => rw [List.map_cons, successors_cons, successors_cons, List.map_append,
      List.map_singleton]

theorem predecessors_map (f : β → γ) (l : List β) :
    predecessors (l.map f) = (predecessors l).map f := by
  have turned := successors_map f (predecessors l)
  rw [successors_predecessors] at turned
  rw [← turned, predecessors_successors]

private theorem successors_zip (l : List β) (m : List γ) (same : l.length = m.length) :
    successors (l.zip m) = (successors l).zip (successors m) := by
  cases l with
  | nil =>
    rw [List.eq_nil_of_length_eq_zero same.symm]
    rfl
  | cons a l =>
    cases m with
    | nil => simp at same
    | cons b m =>
      have rests : l.length = m.length := by simpa using same
      rw [List.zip_cons_cons, successors_cons, successors_cons, successors_cons,
        List.zip_append rests]
      rfl

private theorem predecessors_sides (l : List β) :
    predecessors (sides l) = (predecessors l).zip l := by
  have turned := successors_zip (predecessors l) l (by simp)
  rw [successors_predecessors] at turned
  rw [sides, ← turned, predecessors_successors]

/-- Read from its ends or from its starts, a closed list has the same sides. -/
theorem perm_sides (l : List β) : ((predecessors l).zip l).Perm (sides l) := by
  rw [← predecessors_sides]
  exact perm_predecessors (sides l)

theorem perm_sides_reverse (l : List β) : (sides l.reverse).Perm ((sides l).map Prod.swap) := by
  have back : sides l.reverse = (l.zip (predecessors l)).reverse := by
    rw [sides, successors_reverse, List.zip_eq_zipWith, List.zip_eq_zipWith,
      List.reverse_zipWith (by simp)]
  have swapped : l.zip (predecessors l) = ((predecessors l).zip l).map Prod.swap :=
    (List.zip_swap _ _).symm
  rw [back, swapped]
  exact (List.reverse_perm _).trans ((perm_sides l).map _)

theorem map_fst_sides (l : List β) : (sides l).map Prod.fst = l :=
  List.map_fst_zip (by simp)

theorem map_snd_sides (l : List β) : (sides l).map Prod.snd = successors l :=
  List.map_snd_zip (by simp)

theorem sides_map (f : β → γ) (l : List β) : sides (l.map f) = (sides l).map (Prod.map f f) := by
  rw [sides, successors_map, List.zip_map, sides]

section Members

variable {l : List β} {a b c : β}

theorem mem_of_mem_sides {s : β × β} (side : s ∈ sides l) : s.1 ∈ l ∧ s.2 ∈ l := by
  have ends := List.of_mem_zip side
  exact ⟨ends.1, (perm_successors l).mem_iff.mp ends.2⟩

theorem exists_side_from (member : a ∈ l) : ∃ b, (a, b) ∈ sides l := by
  rw [← map_fst_sides l] at member
  obtain ⟨⟨_, b⟩, side, rfl⟩ := List.mem_map.mp member
  exact ⟨b, side⟩

theorem exists_side_to (member : b ∈ l) : ∃ a, (a, b) ∈ sides l := by
  rw [← (perm_successors l).mem_iff, ← map_snd_sides l] at member
  obtain ⟨⟨a, _⟩, side, rfl⟩ := List.mem_map.mp member
  exact ⟨a, side⟩

theorem nodup_sides (nodup : l.Nodup) : (sides l).Nodup := by
  refine List.Nodup.of_map Prod.fst ?_
  rw [map_fst_sides]
  exact nodup

theorem end_unique (nodup : l.Nodup) (side : (a, b) ∈ sides l) (side' : (a, c) ∈ sides l) :
    b = c := by
  have starts : ((sides l).map Prod.fst).Nodup := by
    rw [map_fst_sides]
    exact nodup
  exact congrArg Prod.snd (List.inj_on_of_nodup_map starts side side' rfl)

end Members

def links (path : List β) : List (β × β) := path.zip path.tail

theorem links_append (front : List β) (a : β) (back : List β) :
    links (front ++ a :: back) = links (front ++ [a]) ++ links (a :: back) := by
  induction front with
  | nil => rfl
  | cons b front ih =>
    cases front with
    | nil => rfl
    | cons c front =>
      have later : links (c :: front ++ a :: back) =
          links (c :: front ++ [a]) ++ links (a :: back) := ih
      simp only [links, List.cons_append, List.tail_cons, List.zip_cons_cons] at later ⊢
      rw [later]

theorem links_reverse_cons (b a : β) (rest : List β) :
    links (b :: a :: rest).reverse = links (a :: rest).reverse ++ [(a, b)] := by
  have split : (b :: a :: rest).reverse = rest.reverse ++ a :: [b] := by simp
  rw [split, links_append, List.reverse_cons]
  rfl

theorem sides_eq_links (a : β) (rest : List β) : sides (a :: rest) = links (a :: rest ++ [a]) := by
  rw [sides, successors_cons, links]
  have ends : (a :: rest ++ [a]).tail = rest ++ [a] := rfl
  have whole : (rest ++ [a]) = (rest ++ [a]) ++ [] := (List.append_nil _).symm
  rw [ends]
  conv => rhs; rw [whole, List.zip_append (by simp)]
  simp

theorem sides_append (a : β) (out : List β) (z : β) (back : List β) :
    sides (a :: out ++ z :: back) = links (a :: out ++ [z]) ++ links (z :: back ++ [a]) := by
  have closed : sides (a :: out ++ z :: back) = links (a :: out ++ z :: (back ++ [a])) := by
    rw [List.cons_append, sides_eq_links]
    simp
  rw [closed, links_append]
  rfl

theorem mem_links_map_range {f : Nat → β} {n : Nat} {z : β} {s : β × β} :
    s ∈ links ((List.range (n + 1)).map f ++ [z]) ↔
      (∃ i < n, s = (f i, f (i + 1))) ∨ s = (f n, z) := by
  induction n generalizing z with
  | zero => simp [links]
  | succ n ih =>
    rw [List.range_succ, List.map_append, List.append_assoc, List.map_singleton,
      List.singleton_append, links_append, List.mem_append, ih]
    simp only [links, List.tail_cons, List.zip_cons_cons, List.zip_nil_right, List.mem_singleton,
      Nat.lt_succ_iff_lt_or_eq, or_and_right, exists_or, exists_eq_left]

section Links

variable {path : List β} {b : β}

theorem mem_of_mem_links {s : β × β} (step : s ∈ links path) : s.1 ∈ path ∧ s.2 ∈ path := by
  have ends := List.of_mem_zip step
  exact ⟨ends.1, List.mem_of_mem_tail ends.2⟩

theorem rel_of_mem_links {r : β → β → Prop} (ordered : path.Pairwise r) {s : β × β}
    (step : s ∈ links path) : r s.1 s.2 := by
  induction path with
  | nil => simp [links] at step
  | cons a rest ih =>
    cases rest with
    | nil => simp [links] at step
    | cons b rest =>
      rw [links, List.tail_cons, List.zip_cons_cons, List.mem_cons] at step
      rw [List.pairwise_cons] at ordered
      rcases step with rfl | later
      · exact ordered.1 b List.mem_cons_self
      · exact ih ordered.2 later

theorem exists_link_to (later : b ∈ path.tail) : ∃ a, (a, b) ∈ links path := by
  have ends : (links path).map Prod.snd = path.tail := List.map_snd_zip (by simp)
  rw [← ends] at later
  obtain ⟨⟨a, _⟩, step, rfl⟩ := List.mem_map.mp later
  exact ⟨a, step⟩

theorem exists_link_from (z : β) (member : b ∈ path) : ∃ c, (b, c) ∈ links (path ++ [z]) := by
  obtain ⟨front, back, rfl⟩ := List.append_of_mem member
  have split : front ++ b :: back ++ [z] = front ++ b :: (back ++ [z]) := by simp
  rw [split, links_append]
  cases back with
  | nil => exact ⟨z, List.mem_append_right _ List.mem_cons_self⟩
  | cons c back => exact ⟨c, List.mem_append_right _ List.mem_cons_self⟩

end Links

private theorem carried {p : β → Prop} {start : β} {path : List β} (first : p start)
    (along : ∀ s ∈ links (start :: path), p s.1 → p s.2) : ∀ b ∈ path, p b := by
  induction path generalizing start with
  | nil => simp
  | cons b rest ih =>
    rw [links, List.tail_cons, List.zip_cons_cons, List.forall_mem_cons] at along
    have next : p b := along.1 first
    exact List.forall_mem_cons.mpr ⟨next, ih next along.2⟩

/-- Some side leads out of every class that holds some members but not all. -/
theorem exists_side_leaving {l : List β} {p : β → Prop} {a b : β} (inside : a ∈ l) (holds : p a)
    (outside : b ∈ l) (fails : ¬ p b) : ∃ s ∈ sides l, p s.1 ∧ ¬ p s.2 := by
  by_contra none
  push Not at none
  cases l with
  | nil => simp at inside
  | cons x rest =>
    rw [sides_eq_links] at none
    -- From the member onwards the class is carried to the end, which is the start again.
    have start : p x := by
      obtain ⟨front, back, split⟩ := List.append_of_mem inside
      have path : x :: rest ++ [x] = front ++ a :: (back ++ [x]) := by
        rw [split, List.append_assoc, List.cons_append]
      rw [path, links_append] at none
      exact carried holds (fun s step => none s (List.mem_append_right _ step)) x (by simp)
    have all : ∀ y ∈ rest ++ [x], p y := carried start none
    refine fails (all b ?_)
    rcases List.mem_cons.mp outside with rfl | later
    · simp
    · exact List.mem_append_left _ later

section Neighbors

variable {l : List β} {a b c : β}

theorem exists_mem_ne_ne (nodup : l.Nodup) (enough : 3 ≤ l.length) (a b : β) :
    ∃ m ∈ l, m ≠ a ∧ m ≠ b := by
  by_contra none
  push Not at none
  have covered : l ⊆ [a, b] := by
    intro m member
    rw [List.mem_cons, List.mem_singleton]
    exact or_iff_not_imp_left.mpr (none m member)
  have short := (nodup.subperm covered).length_le
  simp only [List.length_cons, List.length_nil] at short
  omega

theorem ne_of_sides (nodup : l.Nodup) (enough : 3 ≤ l.length) (before : (a, b) ∈ sides l)
    (after : (b, c) ∈ sides l) : a ≠ b ∧ b ≠ c ∧ a ≠ c := by
  have apart : ∀ {a b : β}, (a, b) ∈ sides l → a ≠ b := by
    rintro a _ side rfl
    obtain ⟨m, member, other, -⟩ := exists_mem_ne_ne nodup enough a a
    obtain ⟨s, leaving, rfl, away⟩ :=
      exists_side_leaving (p := (· = a)) (mem_of_mem_sides side).1 rfl member other
    exact away (end_unique nodup leaving side)
  refine ⟨apart before, apart after, ?_⟩
  rintro rfl
  -- With two sides back and forth, no side would lead on to a third member.
  obtain ⟨m, member, other, other'⟩ := exists_mem_ne_ne nodup enough a b
  obtain ⟨s, leaving, start, away⟩ :=
    exists_side_leaving (p := fun m => m = a ∨ m = b) (mem_of_mem_sides before).1 (Or.inl rfl)
      member (by simp [other, other'])
  obtain ⟨start', stop⟩ := s
  rcases start with rfl | rfl
  · exact away (Or.inr (end_unique nodup leaving before))
  · exact away (Or.inl (end_unique nodup leaving after))

end Neighbors

theorem length_le_flatMap {first : β → γ} {others : β → List γ} (items : List β) :
    items.length ≤ (items.flatMap (fun i => first i :: others i)).length := by
  induction items with
  | nil => exact Nat.le_refl 0
  | cons i rest ih =>
    rw [List.flatMap_cons, List.length_append, List.length_cons, List.length_cons]
    omega

theorem sides_flatMap {first : β → γ} {others : β → List γ} (items : List β) :
    sides (items.flatMap (fun i => first i :: others i)) =
      (sides items).flatMap (fun s => links (first s.1 :: others s.1 ++ [first s.2])) := by
  have opened : ∀ (i z : β) (rest : List β),
      links ((i :: rest).flatMap (fun i => first i :: others i) ++ [first z]) =
        ((i :: rest).zip (rest ++ [z])).flatMap
          (fun s => links (first s.1 :: others s.1 ++ [first s.2])) := by
    intro i z rest
    induction rest generalizing i with
    | nil => simp
    | cons j rest ih =>
      have split : (i :: j :: rest).flatMap (fun i => first i :: others i) ++ [first z] =
          (first i :: others i) ++ first j :: (others j ++
            (rest.flatMap (fun i => first i :: others i) ++ [first z])) := by simp
      have later : first j :: (others j ++
            (rest.flatMap (fun i => first i :: others i) ++ [first z])) =
          (j :: rest).flatMap (fun i => first i :: others i) ++ [first z] := by simp
      rw [split, links_append, later, ih j]
      rfl
  cases items with
  | nil => rfl
  | cons i rest =>
    have whole := opened i i rest
    have closed : sides (i :: rest) = (i :: rest).zip (rest ++ [i]) := by
      rw [sides, successors_cons]
    rw [closed, ← whole]
    exact sides_eq_links (first i) (others i ++ rest.flatMap (fun i => first i :: others i))

/-- The members of a closed list, each between its neighbors. -/
def corners (l : List β) : List (β × β × β) := (predecessors l).zip (sides l)

section Corners

variable {l : List β}

theorem map_snd_corners (l : List β) : (corners l).map Prod.snd = sides l :=
  List.map_snd_zip (by simp)

theorem map_fst_corners (l : List β) :
    (corners l).map (fun c => (c.1, c.2.1)) = predecessors (sides l) := by
  have pairs : (predecessors l).zip l = (corners l).map (Prod.map id Prod.fst) := by
    rw [corners, ← List.zip_map_right, map_fst_sides]
  rw [predecessors_sides, pairs]
  rfl

theorem map_vertex_corners (l : List β) : (corners l).map (fun c => c.2.1) = l := by
  have starts := congrArg (List.map Prod.fst) (map_snd_corners l)
  rw [map_fst_sides, List.map_map] at starts
  exact starts

theorem sides_of_mem_corners {c : β × β × β} (corner : c ∈ corners l) :
    (c.1, c.2.1) ∈ sides l ∧ c.2 ∈ sides l := by
  constructor
  · rw [← (perm_predecessors (sides l)).mem_iff, ← map_fst_corners]
    exact List.mem_map_of_mem corner
  · rw [← map_snd_corners l]
    exact List.mem_map_of_mem corner

theorem exists_corner_of_side {a b : β} (side : (a, b) ∈ sides l) : ∃ u, (u, a, b) ∈ corners l := by
  rw [← map_snd_corners l] at side
  obtain ⟨⟨u, _⟩, corner, rfl⟩ := List.mem_map.mp side
  exact ⟨u, corner⟩

/-- A corner and the next one share a side. -/
theorem shared_side {c d : β × β × β} (step : (c, d) ∈ sides (corners l)) :
    d.1 = c.2.1 ∧ d.2.1 = c.2.2 := by
  have next : (successors (corners l)).map (Prod.map id Prod.fst) = sides l := by
    rw [corners, successors_zip _ _ (by simp), successors_predecessors, ← List.zip_map_right,
      ← successors_map, map_fst_sides, sides]
  have pairs : (sides (corners l)).map (Prod.map Prod.snd (Prod.map id Prod.fst)) =
      (sides l).map (fun s => (s, s)) := by
    rw [sides, ← List.zip_map, map_snd_corners, next, List.zip_eq_zipWith, List.zipWith_self]
  have member := List.mem_map_of_mem (f := Prod.map Prod.snd (Prod.map id Prod.fst)) step
  rw [pairs] at member
  obtain ⟨s, -, same⟩ := List.mem_map.mp member
  obtain ⟨first, second⟩ := Prod.mk.inj same
  obtain ⟨start, stop⟩ := Prod.mk.inj (second.symm.trans first)
  exact ⟨start, stop⟩

end Corners

end CapabilityAtlas.Geometry
