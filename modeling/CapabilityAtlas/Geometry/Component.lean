set_option autoImplicit false
set_option relaxedAutoImplicit false

/-!
Connected components of a relation between the first naturals. Every number carries the least
number of its component as a label; a related pair gives both components the lesser label.
-/

namespace CapabilityAtlas.Geometry

def labelOf (labels : List Nat) (i : Nat) : Nat := labels.getD i i

def join (labels : List Nat) (i j : Nat) : List Nat :=
  let low := min (labelOf labels i) (labelOf labels j)
  let high := max (labelOf labels i) (labelOf labels j)
  labels.map (fun label => if label = high then low else label)

def orderedPairs (n : Nat) : List (Nat × Nat) :=
  (List.range n).flatMap (fun i => ((List.range n).filter (i < ·)).map (i, ·))

/-- The labels after all related pairs have been joined. -/
def componentLabels (n : Nat) (related : Nat → Nat → Bool) : List Nat :=
  ((orderedPairs n).filter (fun p => related p.1 p.2)).foldl (fun labels p => join labels p.1 p.2)
    (List.range n)

/-- The components, each in ascending order, listed by their least numbers. -/
def components (n : Nat) (related : Nat → Nat → Bool) : List (List Nat) :=
  let labels := componentLabels n related
  ((List.range n).filter (fun i => labelOf labels i = i)).map (fun least =>
    (List.range n).filter (fun i => labelOf labels i = least))

/-!
Connected components, found without relabelling. Every set of numbers is a tree in which each number
points to one above it; two sets are joined by putting the top of one below that of the other, and a
climb to the top halves the way for later ones.
-/

def above (parents : List Nat) (i : Nat) : Nat := parents.getD i i

theorem above_set (parents : List Nat) (i p k : Nat) :
    above (parents.set i p) k = if k = i ∧ i < parents.length then p else above parents k := by
  simp only [above, List.getD_eq_getElem?_getD, List.getElem?_set]
  by_cases same : i = k
  · subst same
    by_cases below : i < parents.length
    · simp [below]
    · simp [below]
  · simp [same, Ne.symm same]

/-- Sets of numbers as trees. The rank of a number is above that of the number to which it points,
which is all that it is there for: no climb goes on forever. -/
structure DisjointSets where
  parents : List Nat
  rank : Nat → Nat
  ascends : ∀ i, above parents i ≠ i → rank (above parents i) < rank i

namespace DisjointSets

def singletons (n : Nat) : DisjointSets where
  parents := List.range n
  rank _ := 0
  ascends i up := by
    refine absurd ?_ up
    by_cases below : i < n
    · simp [above, below]
    · simp [above, below]

theorem rank_above_le (sets : DisjointSets) (i : Nat) :
    sets.rank (above sets.parents i) ≤ sets.rank i := by
  by_cases top : above sets.parents i = i
  · exact Nat.le_of_eq (congrArg sets.rank top)
  · exact Nat.le_of_lt (sets.ascends i top)

/-- Lets a number point past the one to which it points. -/
def halve (sets : DisjointSets) (i : Nat) : DisjointSets where
  parents := sets.parents.set i (above sets.parents (above sets.parents i))
  rank := sets.rank
  ascends k up := by
    rw [above_set] at up ⊢
    split at up
    · rename_i here
      obtain ⟨rfl, below⟩ := here
      rw [if_pos ⟨rfl, below⟩]
      have first := sets.rank_above_le (above sets.parents k)
      refine Nat.lt_of_le_of_lt first (sets.ascends k fun top => up ?_)
      rw [top, top]
    · rename_i elsewhere
      rw [if_neg elsewhere]
      exact sets.ascends k up

theorem above_halve_self (sets : DisjointSets) (i : Nat) :
    above (sets.halve i).parents i = above sets.parents (above sets.parents i) := by
  rw [halve, above_set]
  split
  · rfl
  · rename_i beyond
    have top : above sets.parents i = i := by
      rw [above, List.getD_eq_getElem?_getD, List.getElem?_eq_none (by omega)]
      rfl
    rw [top, top]

/-- The top number above a number, and the sets after the climb to it. -/
def find (sets : DisjointSets) (i : Nat) : Nat × DisjointSets :=
  if _h : above sets.parents i = i then (i, sets)
  else find (sets.halve i) (above (sets.halve i).parents i)
  termination_by sets.rank i
  decreasing_by
    rw [above_halve_self]
    exact Nat.lt_of_le_of_lt (sets.rank_above_le _) (sets.ascends i ‹_›)

private theorem above_find (sets : DisjointSets) (i : Nat) :
    above (sets.find i).2.parents (sets.find i).1 = (sets.find i).1 := by
  fun_induction find sets i with
  | case1 sets i top => exact top
  | case2 sets i up ih => exact ih

def link (sets : DisjointSets) (low high : Nat)
    (top : above sets.parents high = high) : DisjointSets where
  parents := sets.parents.set low high
  rank k := if k = high then 0 else sets.rank k + 1
  ascends k up := by
    rw [above_set] at up ⊢
    split at up
    · rename_i here
      rw [if_pos here, if_pos rfl, if_neg up.symm]
      exact Nat.succ_pos _
    · rename_i elsewhere
      have notHigh : k ≠ high := fun same => up (by rw [same, top])
      rw [if_neg elsewhere, if_neg notHigh]
      have less := sets.ascends k up
      split <;> omega

def unite (sets : DisjointSets) (i j : Nat) : DisjointSets :=
  let first := sets.find i
  let second := first.2.find j
  if first.1 = second.1 then second.2
  else second.2.link first.1 second.1 (above_find _ _)

end DisjointSets

def enter (key i : Nat) : List (Nat × List Nat) → List (Nat × List Nat)
  | [] => [(key, [i])]
  | (k, members) :: rest =>
    if k = key then (k, members ++ [i]) :: rest else (k, members) :: enter key i rest

def collect (state : List (Nat × List Nat) × DisjointSets) (i : Nat) :
    List (Nat × List Nat) × DisjointSets :=
  let found := state.2.find i
  (enter found.1 i state.1, found.2)

/-- The sets that the related pairs among the first naturals join. -/
def jointSets (n : Nat) (related : Nat → Nat → Bool) : DisjointSets :=
  ((orderedPairs n).filter (fun p => related p.1 p.2)).foldl (fun sets p => sets.unite p.1 p.2)
    (DisjointSets.singletons n)

/-- Whether the second list does not come before the first in lexicographic order. -/
def inOrder (first second : List Nat) : Bool := !second.lex first (fun i j => decide (i < j))

def setComponents (n : Nat) (related : Nat → Nat → Bool) : List (List Nat) :=
  (((List.range n).foldl collect ([], jointSets n related)).1.map Prod.snd).mergeSort inOrder

end CapabilityAtlas.Geometry
