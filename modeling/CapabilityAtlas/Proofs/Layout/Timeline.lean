import CapabilityAtlas.Layout.Timeline
import CapabilityAtlas.Proofs.Grouping
import CapabilityAtlas.Proofs.Hierarchy.Instance
import CapabilityAtlas.Proofs.Numeral.Binary

set_option autoImplicit false
set_option relaxedAutoImplicit false

/-!
The columns of a timeline in binary numbers. Finite widths have a whole quotient as long as the
quotient of the container without the remainder stays finite itself.
-/

namespace CapabilityAtlas.Layout

open CapabilityAtlas.Numeral

private theorem exists_nearestWhole_iff (x : Float) :
    (∃ whole, nearestWhole x = .ok whole) ↔ x.isFinite := by
  rw [← exists_exact_iff, nearestWhole]
  cases Exact.ofBinary x with
  | finite negative mantissa exponent =>
    cases exponent <;> simp [Exact.truncated?]
  | infinite negative => simp [Exact.truncated?]
  | undefined => simp [Exact.truncated?]

/-- The quotient of which the whole part is taken: the remainder is taken away first. -/
def reducedQuotient (x y : Float) : Float :=
  match Exact.ofBinary x, Exact.ofBinary y with
  | .finite _ m e, .finite _ n f => (x - binaryRemainder m e n f) / y
  | _, _ => x / y

/-- Finite widths give a number of columns, at least one, exactly if their quotient is finite. -/
theorem exists_columns_iff {c : TimelineConfig Float} (container : c.containerWidth.isFinite)
    (width : c.style.cardWidth.isFinite) :
    (∃ columns, c.columns = .ok columns) ↔
      (reducedQuotient c.containerWidth c.style.cardWidth).isFinite := by
  obtain ⟨negative, m, e, exact⟩ := (exists_exact_iff _).mpr container
  obtain ⟨negative', n, f, exact'⟩ := (exists_exact_iff _).mpr width
  have quotient : WholeQuotient.wholeQuotient c.containerWidth c.style.cardWidth =
      nearestWhole (reducedQuotient c.containerWidth c.style.cardWidth) := by
    show binaryQuotient _ _ = _
    rw [binaryQuotient, reducedQuotient, exact, exact']
  rw [← exists_nearestWhole_iff, TimelineConfig.columns, quotient]
  cases nearestWhole (reducedQuotient c.containerWidth c.style.cardWidth) with
  | ok whole => exact iff_of_true ⟨_, rfl⟩ ⟨whole, rfl⟩
  | error fault => simp [bind, Except.bind]

end CapabilityAtlas.Layout

/-!
The cards of a timeline. Buckets only rearrange the capabilities, each of which gets one card. Both
maps of a timeline, that of the tools of a card and that of all places, lose an entry where two of
their keys meet and no other one.
-/

namespace CapabilityAtlas.Layout

open CapabilityAtlas.Calendar CapabilityAtlas.Hierarchy

def Bucket.rank (bucket : Bucket) : Nat := Bucket.all.idxOf bucket

theorem Bucket.mem_all (bucket : Bucket) : bucket ∈ Bucket.all := by
  cases bucket <;> decide

theorem Bucket.pairwise_rank_all : Bucket.all.Pairwise (fun b b' => b.rank < b'.rank) := by
  decide

private theorem map_mapIdx_eq_map {β γ δ : Type} {f : Nat → β → γ} {g : γ → δ} {k : β → δ}
    (members : List β) (kept : ∀ index m, g (f index m) = k m) :
    (members.mapIdx f).map g = members.map k := by
  induction members generalizing f with
  | nil => rfl
  | cons m rest ih =>
    rw [List.mapIdx_cons, List.map_cons, List.map_cons, kept, ih fun index => kept (index + 1)]

def bucketOf (now : Int) (t : Tree) : Bucket := Bucket.ofLastUse now t.entry.capability.lastUsed

def regrouped (now : Int) (trees : List Tree) : List Tree :=
  Bucket.all.flatMap (fun b => trees.filter (fun t => bucketOf now t = b))

private theorem perm_regrouped (now : Int) (trees : List Tree) : (regrouped now trees).Perm trees :=
  perm_flatMap_filter (bucketOf now) (by decide) fun _ _ => Bucket.mem_all _

def Card.labelled {α : Type} (c : Card α) : Bucket × Tree := (c.bucket, c.tree)

/-- Whether the tools of a card are the instances in its capability, each id counting once. -/
def Card.HoldsInstances {α : Type} (c : Card α) : Prop :=
  c.tools.keys = firstOccurrences (c.tree.entry.tools.map ToolInstance.id)

section Cards

variable {α : Type} [Add α] [Mul α] [NatCast α] (style : TimelineStyle α) (columns : Nat)

private theorem holdsInstances_card (bucket : Bucket) (y : α) (index : Nat) (t : Tree) :
    (card style columns bucket y index t).HoldsInstances := by
  refine (Keyed.keys_ofPairs _).trans (congrArg firstOccurrences ?_)
  exact map_mapIdx_eq_map t.entry.tools fun _ _ => rfl

variable [Sub α]

private theorem addBucket_cards (line : Timeline α) (group : Bucket × List Tree) :
    ∃ y, (addBucket style columns line group).cards =
      line.cards ++ group.2.mapIdx (card style columns group.1 y) := by
  obtain ⟨bucket, members⟩ := group
  refine ⟨line.height, ?_⟩
  by_cases empty : members.isEmpty
  · rw [addBucket, if_pos empty, List.isEmpty_iff.mp empty]
    exact (List.append_nil _).symm
  · rw [addBucket, if_neg empty]

private theorem foldl_addBucket_cards (groups : List (Bucket × List Tree)) (line : Timeline α)
    (holds : ∀ c ∈ line.cards, c.HoldsInstances) :
    (groups.foldl (addBucket style columns) line).cards.map Card.labelled =
        line.cards.map Card.labelled ++ groups.flatMap (fun group => group.2.map (group.1, ·)) ∧
      ∀ c ∈ (groups.foldl (addBucket style columns) line).cards, c.HoldsInstances := by
  induction groups generalizing line with
  | nil => simpa using holds
  | cons group rest ih =>
    obtain ⟨y, cards⟩ := addBucket_cards style columns line group
    have new : (group.2.mapIdx (card style columns group.1 y)).map Card.labelled =
        group.2.map (group.1, ·) := map_mapIdx_eq_map group.2 fun _ _ => rfl
    have holds' : ∀ c ∈ (addBucket style columns line group).cards, c.HoldsInstances := by
      intro c member
      rw [cards, List.mem_append] at member
      rcases member with before | new
      · exact holds c before
      · obtain ⟨index, _, rfl⟩ := List.mem_mapIdx.mp new
        exact holdsInstances_card style columns group.1 y index _
    obtain ⟨labelled, all⟩ := ih _ holds'
    rw [List.foldl_cons]
    refine ⟨?_, all⟩
    rw [labelled, cards, List.map_append, new, List.append_assoc, List.flatMap_cons]

private theorem holdsInstances_of_mem_timelineOf {now : Int} {trees : List Tree} {c : Card α}
    (member : c ∈ (timelineOf style columns now trees).cards) : c.HoldsInstances :=
  (foldl_addBucket_cards style columns _ _ (by simp)).2 c member

/-- The cards stand one bucket after the other, each in its own. -/
theorem map_labelled_cards (now : Int) (trees : List Tree) :
    (timelineOf style columns now trees).cards.map Card.labelled =
      (regrouped now trees).map (fun t => (bucketOf now t, t)) := by
  rw [timelineOf, (foldl_addBucket_cards style columns _ _ (by simp)).1, grouped, regrouped,
    List.flatMap_map, List.map_flatMap]
  refine List.flatMap_congr fun b _ => List.map_congr_left fun t member => ?_
  have own : bucketOf now t = b := of_decide_eq_true (List.mem_filter.mp member).2
  rw [own]

theorem map_tree_cards (now : Int) (trees : List Tree) :
    (timelineOf style columns now trees).cards.map Card.tree = regrouped now trees := by
  have labelled := congrArg (List.map Prod.snd) (map_labelled_cards style columns now trees)
  rw [List.map_map, List.map_map] at labelled
  exact labelled.trans (List.map_id _)

theorem perm_map_tree_cards (now : Int) (trees : List Tree) :
    ((timelineOf style columns now trees).cards.map Card.tree).Perm trees := by
  rw [map_tree_cards]
  exact perm_regrouped now trees

end Cards

def ownIds (t : Tree) : List String := t.id :: t.entry.tools.map ToolInstance.id

section Hierarchy

variable {payload : Payload} {s : Snapshot}

private theorem candidates_eq (h : Hierarchy) :
    candidates h false none = h.walk.mergeSort recencyLe := by
  have all : h.walk.filter (fun t => isSelected none t.id) = h.walk :=
    List.filter_eq_self.mpr fun _ _ => rfl
  rw [candidates, if_neg Bool.false_ne_true, all]

private theorem perm_ownIds (nodup : (activeIds s).Nodup) {trees : List Tree}
    (perm : trees.Perm (build s).walk) : (trees.flatMap ownIds).Perm (treeIds s) := by
  have split : (build s).walk.flatMap ownIds =
      (build s).walk.flatMap (fun t => [t.id] ++ t.entry.tools.map ToolInstance.id) := rfl
  have ids : (build s).walk.flatMap (fun t => [t.id]) = (build s).walk.map Tree.id :=
    List.map_eq_flatMap.symm
  have instances : (build s).walk.flatMap (fun t => t.entry.tools.map ToolInstance.id) =
      (instances (build s)).map ToolInstance.id := List.map_flatMap.symm
  refine (perm.flatMap_right ownIds).trans ?_
  rw [split]
  refine (List.flatMap_append_perm _ _ _).symm.trans ?_
  rw [ids, instances]
  exact (perm_walk_build nodup).append_right _

variable {α : Type} {line : Timeline α}

/-- Everything that has a place in a timeline, under its id. -/
def placedPairs (line : Timeline α) : List (String × α × α) :=
  line.cards.flatMap (fun c =>
    (c.id, c.position.x, c.position.y) :: c.tools.map (fun tool => (tool.1, tool.2.x, tool.2.y)))

private theorem map_fst_placedPairs (line : Timeline α) :
    (placedPairs line).map Prod.fst = line.cards.flatMap (fun c => c.id :: c.tools.keys) := by
  rw [placedPairs, List.map_flatMap]
  refine List.flatMap_congr fun c _ => ?_
  rw [List.map_cons, List.map_map]
  rfl

private theorem map_fst_placedPairs_of_keys
    (each : ∀ c ∈ line.cards, c.tools.keys = c.tree.entry.tools.map ToolInstance.id) :
    (placedPairs line).map Prod.fst = (line.cards.map Card.tree).flatMap ownIds := by
  rw [map_fst_placedPairs, List.flatMap_map]
  refine List.flatMap_congr fun c member => ?_
  rw [each c member]
  rfl

/-- Whether a timeline has one card for every capability of a hierarchy, with the instances in it.
-/
structure ShowsTree (h : Hierarchy) (line : Timeline α) : Prop where
  trees : (line.cards.map Card.tree).Perm h.walk
  holds : ∀ c ∈ line.cards, c.HoldsInstances

theorem showsTree_of_timeline [Add α] [Sub α] [Mul α] [NatCast α] [WholeQuotient α]
    {h : Hierarchy} {c : TimelineConfig α} {now : Int} (whole : c.topLevelOnly = false)
    (made : timeline h c now none = .ok line) : ShowsTree h line := by
  obtain ⟨columns, -, made⟩ := Fault.ok_of_bind made
  obtain rfl := Except.ok.inj made
  rw [whole, candidates_eq]
  exact {
    trees := (perm_map_tree_cards c.style columns now _).trans (List.mergeSort_perm _ _)
    holds := fun card member => holdsInstances_of_mem_timelineOf c.style columns member }

namespace ShowsTree

variable (shows : ShowsTree (build s) line) (nodup : (activeIds s).Nodup)

include shows nodup

private theorem perm_keys_positions : line.positions.keys.Perm (firstOccurrences (treeIds s)) := by
  have positions : line.positions.keys =
      firstOccurrences (line.cards.flatMap (fun c => c.id :: c.tools.keys)) := by
    rw [← map_fst_placedPairs]
    exact Keyed.keys_ofPairs _
  rw [positions]
  -- Ids that meet on one card and ids that meet on two are lost alike, so only membership counts.
  refine (List.perm_ext_iff_of_nodup (nodup_firstOccurrences _) (nodup_firstOccurrences _)).mpr ?_
  intro id
  rw [mem_firstOccurrences, mem_firstOccurrences, ← (perm_ownIds nodup shows.trees).mem_iff,
    List.flatMap_map, List.mem_flatMap, List.mem_flatMap]
  refine exists_congr fun c => and_congr_right fun member => ?_
  have tools : c.tools.keys = _ := shows.holds c member
  rw [tools, ownIds, List.mem_cons, List.mem_cons, mem_firstOccurrences]
  rfl

private theorem length_treeIds :
    (treeIds s).length = line.cards.length + (instances (build s)).length := by
  rw [treeIds, List.length_append, List.length_map, ← (perm_walk_build nodup).length_eq,
    List.length_map, ← shows.trees.length_eq, List.length_map]

theorem length_positions_iff_nodup :
    line.positions.length = line.cards.length + (instances (build s)).length ↔
      (treeIds s).Nodup := by
  have keys : line.positions.length = (firstOccurrences (treeIds s)).length :=
    (List.length_map _).symm.trans (shows.perm_keys_positions nodup).length_eq
  rw [keys, ← shows.length_treeIds nodup, length_firstOccurrences_eq_iff]

variable (distinct : (treeIds s).Nodup)

include distinct

private theorem keys_tools {c : Card α} (member : c ∈ line.cards) :
    c.tools.keys = c.tree.entry.tools.map ToolInstance.id := by
  have own : (ownIds c.tree).Nodup :=
    (List.nodup_flatMap.mp ((perm_ownIds nodup shows.trees).nodup_iff.mpr distinct)).1 c.tree
      (List.mem_map_of_mem member)
  exact (shows.holds c member).trans (firstOccurrences_of_nodup (List.nodup_cons.mp own).2)

/-- Where the ids of a tree are distinct, nothing that has a place is overwritten. -/
theorem get?_positions {id : String} {place : α × α} (placed : (id, place) ∈ placedPairs line) :
    line.positions.get? id = some place := by
  have keys : ((placedPairs line).map Prod.fst).Nodup := by
    rw [map_fst_placedPairs_of_keys fun c member => shows.keys_tools nodup distinct member]
    exact (perm_ownIds nodup shows.trees).nodup_iff.mpr distinct
  have same : line.positions = placedPairs line := Keyed.ofPairs_of_nodup keys
  rw [same]
  exact Keyed.get?_of_mem keys placed

end ShowsTree

/-- An unfiltered timeline has a card for every used capability. It has a place for each of them and
for each instance exactly if the ids in the tree are distinct, and then none is overwritten and the
tools of no card lack one. -/
theorem length_positions_eq_iff [Add α] [Sub α] [Mul α] [NatCast α] [WholeQuotient α]
    (accepted : Snapshot.ofPayload payload = .ok s) {c : TimelineConfig α} {now : Int}
    (whole : c.topLevelOnly = false) (made : timeline (build s) c now none = .ok line) :
    (line.cards.map Card.id).Perm (activeIds s) ∧
    ((treeIds s).Nodup ↔ Unambiguous s) ∧
    (line.positions.length = line.cards.length + (instances (build s)).length ↔ Unambiguous s) ∧
    (Unambiguous s → ∀ card ∈ line.cards,
      card.tools.keys = card.tree.entry.tools.map ToolInstance.id ∧
      line.positions.get? card.id = some (card.position.x, card.position.y) ∧
      ∀ id place, (id, place) ∈ card.tools →
        line.positions.get? id = some (place.x, place.y)) := by
  have nodup := nodup_activeIds accepted
  have shows := showsTree_of_timeline whole made
  refine ⟨?_, nodup_treeIds_iff accepted, ?_, ?_⟩
  · have ids : line.cards.map Card.id = (line.cards.map Card.tree).map Tree.id :=
      List.map_map.symm
    rw [ids]
    exact (shows.trees.map Tree.id).trans (perm_walk_build nodup)
  · rw [shows.length_positions_iff_nodup nodup, nodup_treeIds_iff accepted]
  · intro clear card member
    have distinct := (nodup_treeIds_iff accepted).mpr clear
    refine ⟨shows.keys_tools nodup distinct member, ?_, ?_⟩
    · exact shows.get?_positions nodup distinct
        (List.mem_flatMap.mpr ⟨card, member, List.mem_cons_self⟩)
    · intro id place inside
      refine shows.get?_positions nodup distinct (List.mem_flatMap.mpr ⟨card, member, ?_⟩)
      exact List.mem_cons_of_mem _ (List.mem_map.mpr ⟨(id, place), inside, rfl⟩)

end Hierarchy

def wholeConfig (containerWidth : Float) : TimelineConfig Float where
  containerWidth := containerWidth
  style := TimelineStyle.standard
  topLevelOnly := false

theorem timeline_wholeConfig {h : Hierarchy} (sorted : h.walk.Pairwise (recencyLe · ·))
    (now : Int) :
    timeline h (wholeConfig 800) now none =
      .ok (timelineOf TimelineStyle.standard 4 now h.walk) := by
  have columns : (wholeConfig 800).columns = .ok 4 := by decide +kernel
  have all : candidates h false none = h.walk :=
    (candidates_eq h).trans (List.mergeSort_of_pairwise sorted)
  rw [timeline, columns]
  exact congrArg (fun trees => Except.ok (timelineOf _ 4 now trees)) all

theorem length_positions_eq_iff_of_shared :
    ∃ s line, Snapshot.ofPayload (sharedToolPayload "fs_read") = .ok s ∧
      (wholeConfig 800).topLevelOnly = false ∧
      timeline (build s) (wholeConfig 800) 0 none = .ok line ∧
      line.cards.length = 2 ∧ (instances (build s)).length = 2 ∧ line.positions.length = 4 := by
  obtain ⟨s, accepted, ids, two, sorted⟩ : ∃ s,
      Snapshot.ofPayload (sharedToolPayload "fs_read") = .ok s ∧
      treeIds s = ["c", "d", "fs_read__c", "fs_read__d"] ∧ (instances (build s)).length = 2 ∧
      (build s).walk.Pairwise (recencyLe · ·) :=
    ⟨_, rfl, by decide +kernel, by decide +kernel, by decide +kernel⟩
  have made := timeline_wholeConfig sorted 0
  obtain ⟨cards, distinct, places, -⟩ := length_positions_eq_iff accepted rfl made
  have count := (showsTree_of_timeline rfl made).length_treeIds (nodup_activeIds accepted)
  have clear : Unambiguous s := distinct.mp (by rw [ids]; decide)
  have all := places.mpr clear
  rw [ids, two] at count
  refine ⟨s, _, accepted, rfl, made, ?_, two, ?_⟩
  · simpa using count.symm
  · rw [all, two, ← count]
    rfl

/-- A tool that two capabilities share, and another tool with the id of the first one's instance in
one of them. -/
def crossedPayload : Payload :=
  .record [
    ("nodes", .list [
      .record [("id", .text "c"), ("type", .text "capability"), ("usage_count", .int 1)],
      .record [("id", .text "d"), ("type", .text "capability"), ("usage_count", .int 1)],
      .record [("id", .text "t"), ("type", .text "tool"),
        ("parents", .list [.text "c", .text "d"])],
      .record [("id", .text "t__c"), ("type", .text "tool"), ("parents", .list [.text "c"])]]),
    ("edges", .list [])]

theorem not_length_positions :
    ∃ s line, Snapshot.ofPayload crossedPayload = .ok s ∧
      timeline (build s) (wholeConfig 800) 0 none = .ok line ∧
      (instances (build s)).map ToolInstance.id = ["t__c", "t__c", "t__d"] ∧
      ¬ (treeIds s).Nodup ∧
      line.cards.map (fun c => (c.tree.entry.tools.length, c.tools.length)) = [(2, 1), (1, 1)] ∧
      line.positions.keys = ["c", "t__c", "d", "t__d"] := by
  refine ⟨_, _, rfl, timeline_wholeConfig ?_ 0, ?_, ?_, ?_, ?_⟩ <;> decide +kernel

end CapabilityAtlas.Layout
