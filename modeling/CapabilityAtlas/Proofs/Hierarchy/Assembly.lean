import CapabilityAtlas.Hierarchy.Assembly
import CapabilityAtlas.Proofs.Hierarchy.Forest

set_option autoImplicit false
set_option relaxedAutoImplicit false

/-!
Putting a hierarchy together pass by pass. No pass ever misses a node that it changes, and what the
passes leave is the hierarchy whose trees are grown from the entries.
-/

namespace CapabilityAtlas.Hierarchy

namespace Draft

def addChildren (ids : List String) (d : Draft) : Draft := { d with children := d.children ++ ids }

def addTools (is : List ToolInstance) (d : Draft) : Draft :=
  { d with entry := { d.entry with tools := d.entry.tools ++ is } }

@[simp] theorem addChildren_nil (d : Draft) : d.addChildren [] = d := by simp [addChildren]

@[simp] theorem addTools_nil (d : Draft) : d.addTools [] = d := by simp [addTools]

private theorem addChildren_addChild (id : String) (ids : List String) (d : Draft) :
    (d.addChild id).addChildren ids = d.addChildren (id :: ids) := by
  simp [addChildren, addChild]

private theorem addTools_addTools (is js : List ToolInstance) (d : Draft) :
    (d.addTools is).addTools js = d.addTools (is ++ js) := by
  simp [addTools]

end Draft

/-- A table with one node for each capability. -/
def draftTable (active : List Capability) (draft : Capability → Draft) : Keyed Draft :=
  active.map (fun c => (c.id, draft c))

section Passes

variable {active : List Capability} {draft : Capability → Draft}

private theorem keys_draftTable : (draftTable active draft).keys = active.map Capability.id :=
  List.map_map

variable (nodup : (active.map Capability.id).Nodup)

include nodup

private theorem blankDrafts_eq (parents : Keyed String) (levels : Keyed Nat) :
    blankDrafts parents levels active =
      draftTable active (fun c => { entry := entryOf parents levels [] c, children := [] }) := by
  refine Keyed.ofPairs_of_nodup ?_
  rw [List.map_map]
  exact nodup

private theorem get?_draftTable {c : Capability} (member : c ∈ active) :
    (draftTable active draft).get? c.id = some (draft c) := by
  refine Keyed.get?_of_mem ?_ (List.mem_map_of_mem member)
  rw [keys_draftTable]
  exact nodup

private theorem revise_draftTable {id : String} (member : id ∈ active.map Capability.id)
    (change : Draft → Draft) :
    revise (draftTable active draft) id change =
      .ok (draftTable active (fun c => if c.id = id then change (draft c) else draft c)) := by
  obtain ⟨c, hc, rfl⟩ := List.mem_map.mp member
  have keys : (draftTable active draft).keys = active.map Capability.id := keys_draftTable
  simp only [revise, get?_draftTable nodup hc]
  rw [Keyed.put_eq_map (keys ▸ nodup) (keys ▸ member), draftTable, List.map_map, draftTable]
  congr 1
  refine List.map_congr_left fun x hx => ?_
  by_cases same : x.id = c.id
  · obtain rfl := List.inj_on_of_nodup_map nodup hx hc same
    simp
  · simp [same]

theorem hangAll_eq_ok {parents : Keyed String} (ids top : List String)
    (closed : ∀ id ∈ ids, ∀ p, parents.get? id = some p → p ∈ active.map Capability.id) :
    ids.foldlM (hang parents) (top, draftTable active draft) =
      .ok (top ++ ids.filter (fun id => parents.get? id = none),
        draftTable active (fun c =>
          (draft c).addChildren (ids.filter (fun id => parents.get? id = some c.id)))) := by
  induction ids generalizing top draft with
  | nil =>
    simp only [List.foldlM_nil, List.filter_nil, List.append_nil, Draft.addChildren_nil]
    rfl
  | cons id rest ih =>
    have closed' : ∀ x ∈ rest, ∀ p, parents.get? x = some p → p ∈ active.map Capability.id :=
      fun x hx => closed x (List.mem_cons_of_mem _ hx)
    rw [List.foldlM_cons]
    cases linked : parents.get? id with
    | none =>
      have step : hang parents (top, draftTable active draft) id =
          .ok (top ++ [id], draftTable active draft) := by
        simp only [hang, linked]
      rw [step]
      refine (ih (top ++ [id]) closed').trans ?_
      simp [linked]
    | some p =>
      have step : hang parents (top, draftTable active draft) id =
          .ok (top, draftTable active (fun c =>
            if c.id = p then (draft c).addChild id else draft c)) := by
        simp only [hang, linked, revise_draftTable nodup (closed id List.mem_cons_self p linked)]
        rfl
      rw [step]
      refine (ih top closed').trans ?_
      have same : ∀ c : Capability,
          (if c.id = p then (draft c).addChild id else draft c).addChildren
              (rest.filter (fun x => parents.get? x = some c.id)) =
            (draft c).addChildren ((id :: rest).filter (fun x => parents.get? x = some c.id)) := by
        intro c
        by_cases here : c.id = p
        · simp [here, linked, Draft.addChildren_addChild]
        · have there : ¬ p = c.id := fun h => here h.symm
          simp [here, linked, there]
      simp [same, linked]

theorem install_eq_ok {p : Placement} (once : p.parents.Nodup)
    (closed : ∀ parent ∈ p.parents, parent ∈ active.map Capability.id) :
    install (draftTable active draft) p = .ok (draftTable active (fun c =>
      (draft c).addTools (if c.id ∈ p.parents then [p.instanceIn c.id] else []))) := by
  unfold install
  generalize p.parents = names at once closed
  induction names generalizing draft with
  | nil =>
    simp only [List.foldlM_nil, List.not_mem_nil, if_false, Draft.addTools_nil]
    rfl
  | cons name rest ih =>
    obtain ⟨fresh, once⟩ := List.nodup_cons.mp once
    rw [List.foldlM_cons, revise_draftTable nodup (closed name List.mem_cons_self)]
    refine (ih once fun x hx => closed x (List.mem_cons_of_mem _ hx)).trans ?_
    have same : ∀ c : Capability,
        (if c.id = name then (draft c).addTool (p.instanceIn name) else draft c).addTools
            (if c.id ∈ rest then [p.instanceIn c.id] else []) =
          (draft c).addTools (if c.id ∈ name :: rest then [p.instanceIn c.id] else []) := by
      intro c
      by_cases here : c.id = name
      · have out : c.id ∉ rest := here ▸ fresh
        rw [if_pos here, if_neg out, if_pos (here ▸ List.mem_cons_self), here,
          Draft.addTools_nil]
        rfl
      · simp [here]
    simp only [same]

theorem installAll_eq_ok (placements : List Placement)
    (once : ∀ p ∈ placements, p.parents.Nodup)
    (closed : ∀ p ∈ placements, ∀ parent ∈ p.parents, parent ∈ active.map Capability.id) :
    placements.foldlM install (draftTable active draft) = .ok (draftTable active (fun c =>
      (draft c).addTools (instancesIn placements c.id))) := by
  induction placements generalizing draft with
  | nil =>
    have blank : ∀ id, instancesIn [] id = [] := fun _ => rfl
    simp only [List.foldlM_nil, blank, Draft.addTools_nil]
    rfl
  | cons p rest ih =>
    rw [List.foldlM_cons,
      install_eq_ok nodup (once p List.mem_cons_self) (closed p List.mem_cons_self)]
    refine (ih (fun q hq => once q (List.mem_cons_of_mem _ hq))
      (fun q hq => closed q (List.mem_cons_of_mem _ hq))).trans ?_
    have same : ∀ c : Capability,
        (if c.id ∈ p.parents then [p.instanceIn c.id] else []) ++ instancesIn rest c.id =
          instancesIn (p :: rest) c.id := by
      intro c
      by_cases here : c.id ∈ p.parents
      · simp [instancesIn, here]
      · simp [instancesIn, here]
    simp only [Draft.addTools_addTools, same]

end Passes

private theorem mapM_map_eq_ok {α β γ : Type} {f : β → Except Fault γ} {g : α → β} {k : α → γ}
    (xs : List α) (each : ∀ x ∈ xs, f (g x) = .ok (k x)) :
    (xs.map g).mapM f = .ok (xs.map k) := by
  induction xs with
  | nil => rfl
  | cons x rest ih =>
    rw [List.map_cons, List.mapM_cons, each x List.mem_cons_self,
      ih fun y hy => each y (List.mem_cons_of_mem _ hy)]
    rfl

/-- The trees below a parent, where the nodes that lie deeper are still in the table. -/
theorem unfoldTrees_eq_ok {parentOf : Entry → Option String} {entries left : List Entry}
    {tree : String → Option String} {rooted : Rooted parentOf entries tree} {drafts : Keyed Draft}
    {parent : Option String} (reaches : Reaches rooted left parent)
    (deep : ∀ e ∈ entries, parentDepth rooted.grounded parent < depth rooted.grounded e.id →
      drafts.get? e.id =
        some ⟨e, (entries.filter (fun f => parentOf f = some e.id)).map Entry.id⟩) :
    unfoldTrees drafts ((entries.filter (fun e => parentOf e = parent)).map Entry.id) =
      .ok (grow parentOf left parent) := by
  induction left, parent using grow.induct parentOf generalizing drafts with
  | case1 left parent ih =>
    -- The table loses one node on the way down where the entries lose all siblings.
    rw [unfoldTrees, grow_eq, ← reaches.kids_eq]
    refine mapM_map_eq_ok _ fun e he => ?_
    have deeper := reaches.others he
    obtain ⟨member, below⟩ := List.mem_filter.mp (reaches.kids_eq ▸ he)
    have level := rooted.depth_eq member
    rw [of_decide_eq_true below] at level
    have found := deep e member (by omega)
    have still : ∀ f ∈ entries, depth rooted.grounded e.id < depth rooted.grounded f.id →
        (drafts.erase e.id).get? f.id =
          some ⟨f, (entries.filter (fun g => parentOf g = some f.id)).map Entry.id⟩ := by
      intro f hf lower
      have other : f.id ≠ e.id := by
        intro same
        rw [same] at lower
        omega
      rw [Keyed.get?_erase_of_ne drafts other]
      exact deep f hf (by omega)
    split
    · rename_i d hd
      obtain rfl := Option.some.inj (found.symm.trans hd)
      rw [ih ⟨e, he⟩ deeper still]
      rfl
    · rename_i missing
      rw [found] at missing
      simp at missing

section Assembled

variable {payload : Payload} {s : Snapshot}

theorem mem_activeIds_of_toolParents {ids : List String} {edges : List Edge} {t : Tool}
    {parent : String} (h : parent ∈ toolParents ids edges t) : parent ∈ ids := by
  rw [toolParents, mem_firstOccurrences, List.mem_append] at h
  rcases h with declared | attached
  · simpa using (List.mem_filter.mp declared).2
  · obtain ⟨e, he, rfl⟩ := List.mem_map.mp attached
    have attaches := (List.mem_filter.mp he).2
    simp only [Hierarchy.attaches, Bool.and_eq_true, List.contains_iff_mem] at attaches
    exact attaches.1.2

/-- The node of a capability with what hangs below it and with the given tools. -/
def draftOf (s : Snapshot) (placements : List Placement) (c : Capability) : Draft where
  entry := entryOf (build s).parents (build s).levels placements c
  children := (activeIds s).filter (fun id => (build s).parents.get? id = some c.id)

private theorem hang_activeIds_eq_ok (nodup : (activeIds s).Nodup) :
    (activeIds s).foldlM (hang (build s).parents)
      ([], blankDrafts (build s).parents (build s).levels (s.capabilities.filter isActive)) =
        .ok ((activeIds s).filter (fun id => (build s).parents.get? id = none),
          draftTable (s.capabilities.filter isActive) (draftOf s [])) := by
  have closed : ∀ id ∈ activeIds s, ∀ p, (build s).parents.get? id = some p → p ∈ activeIds s :=
    fun id _ p linked => (mem_of_containerOf ((isForestOf_parents nodup).up_eq_some linked)).2
  rw [blankDrafts_eq nodup]
  exact hangAll_eq_ok nodup (activeIds s) [] closed

private theorem install_placements_eq_ok (nodup : (activeIds s).Nodup) :
    (build s).placements.foldlM install
      (draftTable (s.capabilities.filter isActive) (draftOf s [])) =
        .ok (draftTable (s.capabilities.filter isActive) (draftOf s (build s).placements)) := by
  have placed : ∀ p ∈ (build s).placements, p.parents.Nodup ∧
      ∀ parent ∈ p.parents, parent ∈ activeIds s := by
    intro p hp
    obtain ⟨t, -, rfl⟩ := List.mem_map.mp (List.mem_filter.mp hp).1
    exact ⟨nodup_firstOccurrences _, fun parent h => mem_activeIds_of_toolParents h⟩
  exact installAll_eq_ok nodup (build s).placements
    (fun p hp => (placed p hp).1) (fun p hp => (placed p hp).2)

private theorem unfoldTrees_tops_eq_ok (nodup : (activeIds s).Nodup) :
    unfoldTrees (draftTable (s.capabilities.filter isActive) (draftOf s (build s).placements))
      ((activeIds s).filter (fun id => (build s).parents.get? id = none)) =
        .ok (build s).roots := by
  rw [← map_id_filter_entries]
  refine unfoldTrees_eq_ok (rooted_build nodup).reaches fun e he _ => ?_
  obtain ⟨c, hc, rfl⟩ := List.mem_map.mp he
  rw [map_id_filter_entries]
  exact get?_draftTable nodup (c := c) hc

/-- The passes never fail, and they give the hierarchy whose trees are grown. -/
theorem assemble_eq_ok (nodup : (activeIds s).Nodup) : assemble s = .ok (build s) := by
  have cut : forest? (activeIds s) (firstParents s.edges (activeIds s)) =
      .ok (build s).parents :=
    forest?_eq_ok nodup fun c p linked => (mem_of_get?_firstParents linked).1
  have entries : (draftTable (s.capabilities.filter isActive)
      (draftOf s (build s).placements)).map (fun draft => draft.2.entry) = (build s).entries :=
    List.map_map
  unfold assemble
  change (forest? (activeIds s) (firstParents s.edges (activeIds s)) >>= _) = _
  rw [cut]
  change ((activeIds s).foldlM (hang (build s).parents) ([], blankDrafts (build s).parents
    (build s).levels (s.capabilities.filter isActive)) >>= _) = _
  rw [hang_activeIds_eq_ok nodup]
  change ((build s).placements.foldlM install
    (draftTable (s.capabilities.filter isActive) (draftOf s [])) >>= _) = _
  rw [install_placements_eq_ok nodup]
  change (unfoldTrees (draftTable (s.capabilities.filter isActive)
    (draftOf s (build s).placements))
      ((activeIds s).filter (fun id => (build s).parents.get? id = none)) >>= _) = _
  rw [unfoldTrees_tops_eq_ok nodup]
  exact congrArg (fun entries => Except.ok { build s with entries := entries }) entries

/-- The passes over an accepted snapshot do not fail. What they give is a forest of exactly the used
capabilities, in input order below each node and at the top. Every node carries its link, and from
every id the links lead to the top. -/
theorem assemble_forest_of_used (accepted : Snapshot.ofPayload payload = .ok s) :
    assemble s = .ok (build s) ∧
    (activeIds s).Nodup ∧ ((build s).walk.map Tree.id).Perm (activeIds s) ∧
    (build s).roots.map Tree.id =
      (activeIds s).filter (fun id => (build s).parents.get? id = none) ∧
    (∀ t ∈ (build s).walk,
      (∃ c ∈ s.capabilities.filter isActive,
        t.entry.capability = { c with parentId := (build s).parents.get? t.id }) ∧
      t.children.map Tree.id =
        (activeIds s).filter (fun id => (build s).parents.get? id = some t.id)) ∧
    ∀ id ∈ activeIds s, ∃ n top,
      ascend (build s).parents.get? n id = some top ∧ top ∈ (build s).roots.map Tree.id := by
  have nodup := nodup_activeIds accepted
  refine ⟨assemble_eq_ok nodup, nodup, perm_walk_build nodup, map_id_roots_build nodup, ?_, ?_⟩
  · intro t member
    refine ⟨?_, map_id_children_build nodup member⟩
    obtain ⟨c, hc, same⟩ := entry_of_mem_walk_build nodup member
    refine ⟨c, hc, ?_⟩
    rw [Tree.id, same]
    rfl
  · intro id member
    have forest := isForestOf_parents nodup
    obtain ⟨n, top, reach, loose⟩ := (forest.grounded id).top
    refine ⟨n, top, reach, ?_⟩
    rw [map_id_roots_build nodup]
    refine List.mem_filter.mpr ⟨?_, decide_eq_true loose⟩
    cases n with
    | zero =>
      obtain rfl : id = top := by simpa [ascend] using reach
      exact member
    | succ n =>
      rw [ascend_succ_last] at reach
      obtain ⟨below, -, linked⟩ := Option.bind_eq_some_iff.mp reach
      exact (mem_of_containerOf (forest.up_eq_some linked)).2

theorem assemble_forest_of_used_of_circle :
    Snapshot.ofPayload circlePayload = .ok circleSnapshot ∧
    assemble circleSnapshot = .ok (build circleSnapshot) ∧
    ((build circleSnapshot).walk.map Tree.id).Perm ["a", "b", "c"] :=
  have forest := assemble_forest_of_used accepted_circlePayload
  ⟨accepted_circlePayload, forest.1, forest.2.2.1⟩

end Assembled

end CapabilityAtlas.Hierarchy
