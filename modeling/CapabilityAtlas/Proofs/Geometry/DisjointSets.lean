import CapabilityAtlas.Geometry.Component
import CapabilityAtlas.Proofs.Geometry.Component

set_option autoImplicit false
set_option relaxedAutoImplicit false

/-!
Sets as trees against labels. Halving the way up changes no top, and joining two sets gives the
members of one the top of the other, so tops tell numbers apart exactly as labels do. Collected from
the least number on, the sets are the components, already in order.
-/

namespace CapabilityAtlas.Geometry

namespace DisjointSets

/-- The top number above a number. -/
def top (sets : DisjointSets) (i : Nat) : Nat :=
  if _h : above sets.parents i = i then i else top sets (above sets.parents i)
  termination_by sets.rank i
  decreasing_by exact sets.ascends i ‹_›

variable {sets : DisjointSets} {n i j k : Nat}

private theorem top_of_above_eq (own : above sets.parents i = i) : sets.top i = i := by
  rw [top, dif_pos own]

@[simp] theorem top_above (sets : DisjointSets) (i : Nat) :
    sets.top (above sets.parents i) = sets.top i := by
  by_cases own : above sets.parents i = i
  · rw [own]
  · rw [top.eq_def sets i, dif_neg own]

private theorem above_top (sets : DisjointSets) (i : Nat) :
    above sets.parents (sets.top i) = sets.top i := by
  fun_induction top sets i with
  | case1 i own => exact own
  | case2 i up ih => exact ih

@[simp] theorem top_top (sets : DisjointSets) (i : Nat) : sets.top (sets.top i) = sets.top i :=
  top_of_above_eq (above_top sets i)

private theorem above_halve (sets : DisjointSets) (i k : Nat) :
    above (sets.halve i).parents k =
      if k = i then above sets.parents (above sets.parents i) else above sets.parents k := by
  by_cases same : k = i
  · rw [if_pos same, same, above_halve_self]
  · rw [halve, above_set, if_neg (by simp [same]), if_neg same]

@[simp] theorem top_halve (sets : DisjointSets) (i k : Nat) :
    (sets.halve i).top k = sets.top k := by
  fun_induction top (sets.halve i) k with
  | case1 k own =>
    symm
    apply top_of_above_eq
    rw [above_halve] at own
    split at own
    · rename_i same
      subst same
      -- Two steps up lead back only from the top.
      by_contra up
      have first := sets.ascends k up
      have second := sets.rank_above_le (above sets.parents k)
      rw [own] at second
      omega
    · exact own
  | case2 k up ih =>
    rw [ih, above_halve]
    split
    · rename_i same
      rw [top_above, top_above, same]
    · exact top_above sets k

theorem find_spec (sets : DisjointSets) (i : Nat) :
    (sets.find i).1 = sets.top i ∧ ∀ k, (sets.find i).2.top k = sets.top k := by
  fun_induction find sets i with
  | case1 sets i own => exact ⟨(top_of_above_eq own).symm, fun k => rfl⟩
  | case2 sets i up ih =>
    obtain ⟨found, kept⟩ := ih
    refine ⟨?_, fun k => ?_⟩
    · rw [found, top_above, top_halve]
    · rw [kept, top_halve]

private theorem top_link (high : above sets.parents j = j) (low : above sets.parents i = i)
    (inside : i < sets.parents.length) (k : Nat) :
    (sets.link i j high).top k = if sets.top k = i then j else sets.top k := by
  have steps : ∀ k, above (sets.link i j high).parents k =
      if k = i then j else above sets.parents k := by
    intro k
    rw [link, above_set]
    simp [inside]
  have highest : (sets.link i j high).top j = j := by
    apply top_of_above_eq
    rw [steps]
    split
    · rfl
    · exact high
  fun_induction top sets k with
  | case1 k own =>
    by_cases same : k = i
    · rw [if_pos same, ← top_above, steps, if_pos same, highest]
    · rw [if_neg same]
      apply top_of_above_eq
      rw [steps, if_neg same, own]
  | case2 k up ih =>
    have other : k ≠ i := fun same => up (by rw [same, low])
    rw [← ih, ← top_above, steps, if_neg other]

structure Within (n : Nat) (sets : DisjointSets) : Prop where
  length : sets.parents.length = n
  lt : ∀ k, k < n → above sets.parents k < n

namespace Within

private theorem singletons : Within n (singletons n) := by
  refine ⟨List.length_range, fun k below => ?_⟩
  simp [DisjointSets.singletons, above, below]

private theorem top_lt (within : Within n sets) (below : k < n) : sets.top k < n := by
  fun_induction top sets k with
  | case1 k own => exact below
  | case2 k up ih => exact ih (within.lt k below)

private theorem halve (within : Within n sets) (below : i < n) : Within n (sets.halve i) := by
  refine ⟨?_, fun k inside => ?_⟩
  · rw [DisjointSets.halve, List.length_set]
    exact within.length
  · rw [above_halve]
    split
    · exact within.lt _ (within.lt i below)
    · exact within.lt k inside

private theorem find (within : Within n sets) (below : i < n) : Within n (sets.find i).2 := by
  fun_induction DisjointSets.find sets i with
  | case1 sets i own => exact within
  | case2 sets i up ih => exact ih (within.halve below) ((within.halve below).lt i below)

private theorem link (within : Within n sets) (high : above sets.parents j = j) (below : j < n) :
    Within n (sets.link i j high) := by
  refine ⟨?_, fun k inside => ?_⟩
  · rw [DisjointSets.link, List.length_set]
    exact within.length
  · rw [DisjointSets.link, above_set]
    split
    · exact below
    · exact within.lt k inside

private theorem unite (within : Within n sets) (hi : i < n) (hj : j < n) :
    Within n (sets.unite i j) ∧
      ∀ k, (sets.unite i j).top k = if sets.top k = sets.top i then sets.top j else sets.top k := by
  obtain ⟨first, kept⟩ := find_spec sets i
  obtain ⟨second, kept'⟩ := find_spec (sets.find i).2 j
  rw [kept] at second
  have after := (within.find hi).find hj
  have tops : ∀ k, ((sets.find i).2.find j).2.top k = sets.top k := fun k => by rw [kept', kept]
  rw [DisjointSets.unite]
  split
  · rename_i same
    rw [first, second] at same
    refine ⟨after, fun k => ?_⟩
    rw [tops]
    split
    · rename_i member
      rw [member, same]
    · rfl
  · have low : above ((sets.find i).2.find j).2.parents (sets.find i).1 = (sets.find i).1 := by
      have own := above_top ((sets.find i).2.find j).2 (sets.top i)
      rwa [tops, top_top, ← first] at own
    have inside : (sets.find i).1 < ((sets.find i).2.find j).2.parents.length := by
      rw [after.length, first]
      exact within.top_lt hi
    refine ⟨after.link _ ?_, fun k => ?_⟩
    · rw [second]
      exact within.top_lt hj
    · rw [top_link _ low inside, tops, first, second]

/-- Joining two sets connects a member of each. -/
theorem connects_unite (within : Within n sets) (hi : i < n) (hj : j < n) :
    Connects [(i, j)] sets.top (sets.unite i j).top :=
  Connects.of_step (Or.inl ⟨rfl, rfl⟩) (within.unite hi hj).2

end Within

private theorem top_singletons (n i : Nat) : (singletons n).top i = i := by
  apply top_of_above_eq
  by_cases below : i < n
  · simp [singletons, above, below]
  · simp [singletons, above, below]

end DisjointSets

section Joint

variable {n a b : Nat} {related : Nat → Nat → Bool}

/-- In the end the numbers below one top are those that related pairs connect. -/
theorem connects_jointSets (n : Nat) (related : Nat → Nat → Bool) :
    DisjointSets.Within n (jointSets n related) ∧
      Connects ((orderedPairs n).filter (fun p => related p.1 p.2)) id
        (jointSets n related).top := by
  have start : (DisjointSets.singletons n).top = id := funext (DisjointSets.top_singletons n)
  rw [← start]
  apply Connects.foldl DisjointSets.Within.singletons
  rintro sets within ⟨i, j⟩ pair
  obtain ⟨above, below, -⟩ := mem_related_pairs_iff.mp pair
  have first : i < n := by omega
  exact ⟨(within.unite first below).1, within.connects_unite first below⟩

theorem top_jointSets_eq_iff :
    (jointSets n related).top a = (jointSets n related).top b ↔
      labelOf (componentLabels n related) a = labelOf (componentLabels n related) b := by
  rw [(connects_jointSets n related).2 a b, (connects_componentLabels n related).2 a b]

end Joint

section Collecting

variable {key i : Nat} {keyOf label : Nat → Nat}

private theorem enter_of_forall_ne {table : List (Nat × List Nat)}
    (fresh : ∀ e ∈ table, e.1 ≠ key) :
    enter key i table = table ++ [(key, [i])] := by
  induction table with
  | nil => rfl
  | cons e rest ih =>
    rw [List.forall_mem_cons] at fresh
    rw [enter, if_neg fresh.1, ih fresh.2]
    rfl

private theorem enter_map {a : Nat} {firsts : List Nat} (nodup : firsts.Nodup) (listed : a ∈ firsts)
    (apart : ∀ k ∈ firsts, keyOf k = keyOf a → k = a) (members : Nat → List Nat) :
    enter (keyOf a) i (firsts.map (fun k => (keyOf k, members k))) =
      firsts.map (fun k => (keyOf k, if k = a then members k ++ [i] else members k)) := by
  induction firsts with
  | nil => exact absurd listed List.not_mem_nil
  | cons k rest ih =>
    obtain ⟨fresh, nodup⟩ := List.nodup_cons.mp nodup
    rw [List.forall_mem_cons] at apart
    rw [List.map_cons, List.map_cons, enter]
    by_cases here : k = a
    · subst here
      rw [if_pos rfl, if_pos rfl]
      congr 1
      refine List.map_congr_left fun k' member => ?_
      have other : k' ≠ k := fun same => fresh (same ▸ member)
      rw [if_neg other]
    · have later := (List.mem_cons.mp listed).resolve_left (Ne.symm here)
      rw [if_neg fun same => here (apart.1 same), if_neg here, ih nodup later apart.2]

/-- The classes of the numbers below a bound, each with its key and listed at its least number,
which labels it. -/
def classTable (keyOf label : Nat → Nat) (m : Nat) : List (Nat × List Nat) :=
  ((List.range m).filter (fun k => label k = k)).map (fun least =>
    (keyOf least, (List.range m).filter (fun k => label k = least)))

section Classes

variable {m : Nat} (alike : ∀ a b, keyOf a = keyOf b ↔ label a = label b)
  (le : ∀ k, label k ≤ k) (own : ∀ k, label (label k) = label k)

include alike le

private theorem enter_classTable_of_eq (least : label m = m) :
    enter (keyOf m) m (classTable keyOf label m) = classTable keyOf label (m + 1) := by
  have unlabelled : (List.range m).filter (fun k => label k = m) = [] := by
    rw [List.filter_eq_nil_iff]
    intro k below
    have first := le k
    have second := List.mem_range.mp below
    simp only [decide_eq_true_eq]
    omega
  rw [enter_of_forall_ne]
  · rw [classTable, classTable, List.range_succ, List.filter_append, List.filter_singleton,
      decide_eq_true least, List.map_append]
    congr 1
    · refine List.map_congr_left fun k member => ?_
      have below : k < m := by simpa using List.mem_of_mem_filter member
      have other : label m ≠ k := by omega
      simp [List.filter_append, other]
    · simp [List.filter_append, unlabelled, least]
  · rintro e member same
    obtain ⟨k, inside, rfl⟩ := List.mem_map.mp member
    obtain ⟨below, first⟩ : k < m ∧ label k = k := by simpa using inside
    have one := (alike k m).mp same
    omega

include own

private theorem enter_classTable_of_ne (later : label m ≠ m) :
    enter (keyOf m) m (classTable keyOf label m) = classTable keyOf label (m + 1) := by
  have less := le m
  have before : label m ∈ (List.range m).filter (fun k => label k = k) := by
    rw [List.mem_filter, List.mem_range, decide_eq_true_eq]
    exact ⟨by omega, own m⟩
  have key : keyOf m = keyOf (label m) := (alike _ _).mpr (own m).symm
  rw [key, classTable, enter_map (List.nodup_range.filter _) before]
  · rw [classTable, List.range_succ, List.filter_append, List.filter_singleton,
      decide_eq_false later, cond_false, List.append_nil]
    refine List.map_congr_left fun k member => ?_
    by_cases same : k = label m
    · simp [List.filter_append, same]
    · simp [List.filter_append, same, Ne.symm same]
  · intro k member same
    have first : label k = k := by simpa using (List.mem_filter.mp member).2
    rw [← first, (alike k (label m)).mp same, own]

private theorem foldl_enter_range (m : Nat) :
    (List.range m).foldl (fun table k => enter (keyOf k) k table) [] =
      classTable keyOf label m := by
  induction m with
  | zero => rfl
  | succ m ih =>
    rw [List.range_succ, List.foldl_append, ih, List.foldl_cons, List.foldl_nil]
    by_cases least : label m = m
    · exact enter_classTable_of_eq alike le least
    · exact enter_classTable_of_ne alike le own least

end Classes

/-- Climbing to the top changes the trees, but no top. -/
private theorem foldl_collect (numbers : List Nat) (state : List (Nat × List Nat) × DisjointSets) :
    (numbers.foldl collect state).1 =
      numbers.foldl (fun table k => enter (state.2.top k) k table) state.1 := by
  induction numbers generalizing state with
  | nil => rfl
  | cons k rest ih =>
    obtain ⟨found, kept⟩ := state.2.find_spec k
    have tops : (collect state k).2.top = state.2.top := funext kept
    have table : (collect state k).1 = enter (state.2.top k) k state.1 := by
      rw [collect, found]
    rw [List.foldl_cons, List.foldl_cons, ih, tops, table]

end Collecting

section Order

variable {n : Nat} {related : Nat → Nat → Bool}

private theorem pairwise_inOrder_components (n : Nat) (related : Nat → Nat → Bool) :
    (components n related).Pairwise (fun part other => inOrder part other) := by
  refine (pairwise_head?_components n related).imp ?_
  rintro part other ⟨i, first, j, second, less⟩
  obtain ⟨rest, rfl⟩ := List.head?_eq_some_iff.mp first
  obtain ⟨rest', rfl⟩ := List.head?_eq_some_iff.mp second
  have other : ¬ j < i ∧ j ≠ i := by omega
  simp [inOrder, List.lex, other]

/-- Trees and labels group the numbers alike. -/
theorem setComponents_eq (n : Nat) (related : Nat → Nat → Bool) :
    setComponents n related = components n related := by
  have labelling := (connects_componentLabels n related).1
  have table : ((List.range n).foldl collect ([], jointSets n related)).1.map Prod.snd =
      components n related := by
    rw [foldl_collect, foldl_enter_range (fun a b => top_jointSets_eq_iff) labelling.le
      labelling.own, classTable, List.map_map]
    rfl
  rw [setComponents, table]
  exact List.mergeSort_of_pairwise (pairwise_inOrder_components n related)

end Order

end CapabilityAtlas.Geometry
