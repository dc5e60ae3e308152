import CapabilityAtlas.Proofs.Hierarchy.Rearrangement
import CapabilityAtlas.Proofs.Layout.Buckets
import CapabilityAtlas.Proofs.Layout.Timeline
import CapabilityAtlas.Proofs.Order

set_option autoImplicit false
set_option relaxedAutoImplicit false

/-!
The order of a timeline. Sorting puts the most recent capabilities first, and as a later use never
belongs to an older bucket, the buckets do not disturb that order. Only in the first thirty days of
the calendar do they part what was used at its very start from what was never used.
-/

namespace CapabilityAtlas.Layout

open CapabilityAtlas.Calendar CapabilityAtlas.Hierarchy
open CapabilityAtlas.Snapshot (Rearranged Permuted)

def monthTicks : Nat := 30 * dayTicks

/-- A number that grows with the last use of a capability. One never used comes with the start of
time, or before it as long as that was less than thirty days ago. -/
def recencyKey (now : Int) (t : Tree) : Nat :=
  match t.entry.capability.lastUsed with
  | some i => i.ticks + 1
  | none => if now < monthTicks then 0 else 1

def ListedLe (now : Int) (a b : Tree) : Prop :=
  recencyKey now b < recencyKey now a ∨
    recencyKey now a = recencyKey now b ∧ Order.pairLe (a.name, a.id) (b.name, b.id)

private theorem recencyLe_iff {a b : Tree} :
    recencyLe a b ↔ lastUseTicks b < lastUseTicks a ∨
      lastUseTicks a = lastUseTicks b ∧ Order.pairLe (a.name, a.id) (b.name, b.id) := by
  simp [recencyLe]

private theorem recencyLe_trans (a b c : Tree) (first : recencyLe a b) (second : recencyLe b c) :
    recencyLe a c := by
  rw [recencyLe_iff] at first second ⊢
  rcases first with more | ⟨same, le⟩
  · left
    rcases second with more' | ⟨same', -⟩ <;> omega
  · rcases second with more' | ⟨same', le'⟩
    · left
      omega
    · exact Or.inr ⟨same.trans same', Order.pairLe_trans _ _ _ le le'⟩

private theorem recencyLe_total (a b : Tree) : recencyLe a b || recencyLe b a := by
  rw [Bool.or_eq_true, recencyLe_iff, recencyLe_iff]
  rcases Nat.lt_trichotomy (lastUseTicks a) (lastUseTicks b) with less | same | more
  · exact Or.inr (Or.inl less)
  · have total := Order.pairLe_total (a.name, a.id) (b.name, b.id)
    rw [Bool.or_eq_true] at total
    rcases total with le | ge
    · exact Or.inl (Or.inr ⟨same, le⟩)
    · exact Or.inr (Or.inr ⟨same.symm, ge⟩)
  · exact Or.inl (Or.inl more)

private theorem id_eq_of_recencyLe {a b : Tree} (first : recencyLe a b) (second : recencyLe b a) :
    a.id = b.id := by
  rw [recencyLe_iff] at first second
  rcases first with more | ⟨same, le⟩
  · rcases second with more' | ⟨same', -⟩ <;> omega
  · rcases second with more' | ⟨-, ge⟩
    · omega
    · exact Order.snd_eq_of_pairLe le ge

section Age

variable {now : Int} {a b : Tree}

private theorem recencyKey_of_used {t : Tree} {i : Instant} (now : Int)
    (used : t.entry.capability.lastUsed = some i) : recencyKey now t = lastUseTicks t + 1 := by
  rw [recencyKey, lastUseTicks, used]

private theorem recencyKey_of_late (late : monthTicks ≤ now) (t : Tree) :
    recencyKey now t = lastUseTicks t + 1 := by
  cases used : t.entry.capability.lastUsed with
  | some i => exact recencyKey_of_used now used
  | none =>
    rw [recencyKey, lastUseTicks, used]
    exact if_neg (by omega)

private theorem listedLe_iff_of_keys (first : recencyKey now a = lastUseTicks a + 1)
    (second : recencyKey now b = lastUseTicks b + 1) : ListedLe now a b ↔ recencyLe a b := by
  rw [ListedLe, recencyLe_iff, first, second, Nat.add_lt_add_iff_right, Nat.add_right_cancel_iff]

/-- From the thirtieth day of the calendar on, capabilities never used come with the start of
time. -/
private theorem listedLe_iff_of_late (late : monthTicks ≤ now) : ListedLe now a b ↔ recencyLe a b :=
  listedLe_iff_of_keys (recencyKey_of_late late a) (recencyKey_of_late late b)

private theorem rank_ofLastUse (now : Int) (i : Instant) :
    (Bucket.ofLastUse now (some i)).rank =
      if now - i.ticks < ((1 * dayTicks : Nat) : Int) then 0
      else if now - i.ticks < ((7 * dayTicks : Nat) : Int) then 1
      else if now - i.ticks < (monthTicks : Int) then 2 else 3 := by
  have today : Bucket.takes (now - i.ticks) .today =
      decide (now - i.ticks < ((1 * dayTicks : Nat) : Int)) := rfl
  have week : Bucket.takes (now - i.ticks) .thisWeek =
      decide (now - i.ticks < ((7 * dayTicks : Nat) : Int)) := rfl
  have month : Bucket.takes (now - i.ticks) .thisMonth =
      decide (now - i.ticks < (monthTicks : Int)) := rfl
  have found : Bucket.ofLastUse now (some i) =
      ([Bucket.today, .thisWeek, .thisMonth, .older].find?
        (Bucket.takes (now - i.ticks))).getD .older := rfl
  rw [found, List.find?_cons, List.find?_cons, List.find?_cons, today, week, month]
  split_ifs with one seven thirty
  · rw [decide_eq_true one]
    rfl
  · rw [decide_eq_false one, decide_eq_true seven]
    rfl
  · rw [decide_eq_false one, decide_eq_false seven, decide_eq_true thirty]
    rfl
  · rw [decide_eq_false one, decide_eq_false seven, decide_eq_false thirty]
    rfl

private theorem rank_ofLastUse_le (now : Int) {i j : Instant} (later : j.ticks ≤ i.ticks) :
    (Bucket.ofLastUse now (some i)).rank ≤ (Bucket.ofLastUse now (some j)).rank := by
  rw [rank_ofLastUse, rank_ofLastUse]
  split_ifs <;> omega

private theorem rank_ofLastUse_eq_three_iff (now : Int) (i : Instant) :
    (Bucket.ofLastUse now (some i)).rank = 3 ↔ monthTicks ≤ now - i.ticks := by
  have week : 7 * dayTicks ≤ monthTicks := by decide
  have day : 1 * dayTicks ≤ 7 * dayTicks := by decide
  rw [rank_ofLastUse]
  constructor
  · intro last
    split_ifs at last <;> omega
  · intro old
    rw [if_neg (by omega), if_neg (by omega), if_neg (by omega)]

private theorem Bucket.rank_le_three (bucket : Bucket) : bucket.rank ≤ 3 := by
  cases bucket <;> decide

private theorem rank_bucketOf_of_unused (now : Int) {t : Tree}
    (unused : t.entry.capability.lastUsed = none) : (bucketOf now t).rank = 3 := by
  rw [bucketOf, unused]
  rfl

/-- If a capability was used but shares a bucket with one that was not, the first thirty days are
over. -/
private theorem late_of_rank {i : Instant} (used : a.entry.capability.lastUsed = some i)
    (old : (bucketOf now a).rank = 3) : (i.ticks + monthTicks : Int) ≤ now := by
  rw [bucketOf, used, rank_ofLastUse_eq_three_iff] at old
  omega

private theorem recencyKey_lt_of_rank_lt (before : (bucketOf now a).rank < (bucketOf now b).rank) :
    recencyKey now b < recencyKey now a := by
  have bound := (bucketOf now b).rank_le_three
  cases usedA : a.entry.capability.lastUsed with
  | none =>
    have last := rank_bucketOf_of_unused now usedA
    omega
  | some i =>
    rw [recencyKey_of_used now usedA, lastUseTicks, usedA]
    cases usedB : b.entry.capability.lastUsed with
    | some j =>
      rw [recencyKey_of_used now usedB, lastUseTicks, usedB]
      rw [bucketOf, usedA, bucketOf, usedB] at before
      have earlier : ¬ i.ticks ≤ j.ticks := fun later =>
        absurd (rank_ofLastUse_le now later) (Nat.not_le.mpr before)
      exact Nat.succ_lt_succ (Nat.not_le.mp earlier)
    | none =>
      have recent : ¬ monthTicks ≤ now - i.ticks := by
        rw [← rank_ofLastUse_eq_three_iff]
        rw [bucketOf, usedA] at before
        omega
      rw [recencyKey, usedB]
      dsimp only
      split_ifs <;> omega

private theorem listedLe_of_bucketOf_eq (same : bucketOf now a = bucketOf now b)
    (le : recencyLe a b) :
    ListedLe now a b := by
  cases usedA : a.entry.capability.lastUsed with
  | some i =>
    cases usedB : b.entry.capability.lastUsed with
    | some j =>
      exact (listedLe_iff_of_keys (recencyKey_of_used now usedA)
        (recencyKey_of_used now usedB)).mpr le
    | none =>
      have late := late_of_rank usedA (same ▸ rank_bucketOf_of_unused now usedB)
      exact (listedLe_iff_of_late (by omega)).mpr le
  | none =>
    cases usedB : b.entry.capability.lastUsed with
    | some j =>
      have late := late_of_rank usedB (same ▸ rank_bucketOf_of_unused now usedA)
      exact (listedLe_iff_of_late (by omega)).mpr le
    | none =>
      rw [recencyLe_iff, lastUseTicks, lastUseTicks, usedA, usedB] at le
      rw [ListedLe, recencyKey, recencyKey, usedA, usedB]
      exact Or.inr ⟨rfl, (le.resolve_left (Nat.lt_irrefl _)).2⟩

end Age

/-- The cards of sorted capabilities keep their order, but for the first thirty days. -/
theorem pairwise_listedLe_cards {α : Type} [Add α] [Sub α] [Mul α] [NatCast α]
    (style : TimelineStyle α) (columns : Nat) (now : Int) {trees : List Tree}
    (sorted : trees.Pairwise (recencyLe · ·)) :
    (timelineOf style columns now trees).cards.Pairwise
      (fun a b => ListedLe now a.tree b.tree) := by
  have regrouped : (regrouped now trees).Pairwise (ListedLe now) :=
    (pairwise_flatMap_filter (bucketOf now) Bucket.pairwise_rank_all sorted).imp
      fun order => order.elim (fun before => Or.inl (recencyKey_lt_of_rank_lt before))
        fun tied => listedLe_of_bucketOf_eq tied.1 tied.2
  rw [← map_tree_cards style columns, List.pairwise_map] at regrouped
  exact regrouped

def selected (h : Hierarchy) (topLevelOnly : Bool) (filter : Option (List String)) : List Tree :=
  (if topLevelOnly then h.roots else h.walk).filter (fun t => isSelected filter t.id)

private theorem candidates_eq_sort (h : Hierarchy) (topLevelOnly : Bool)
    (filter : Option (List String)) :
    candidates h topLevelOnly filter = (selected h topLevelOnly filter).mergeSort recencyLe := rfl

private theorem sublist_walkAll : (ts : List Tree) → ts.Sublist (Tree.walkAll ts)
  | [] => List.Sublist.refl _
  | .node e kids :: rest => by
    rw [Tree.walkAll, Tree.walk]
    exact ((sublist_walkAll rest).trans (List.sublist_append_right _ _)).cons_cons _

section Candidates

variable {s s' : Snapshot}

private theorem nodup_map_id_selected (nodup : (activeIds s).Nodup) (topLevelOnly : Bool)
    (filter : Option (List String)) :
    ((selected (build s) topLevelOnly filter).map Tree.id).Nodup := by
  have walk : ((build s).walk.map Tree.id).Nodup := (perm_walk_build nodup).nodup_iff.mpr nodup
  have within : (selected (build s) topLevelOnly filter).Sublist (build s).walk := by
    refine List.filter_sublist.trans ?_
    cases topLevelOnly with
    | true => exact sublist_walkAll _
    | false => exact List.Sublist.refl _
  exact walk.sublist (within.map Tree.id)

private theorem eq_of_recencyLe {trees : List Tree} (distinct : (trees.map Tree.id).Nodup)
    {a b : Tree}
    (inside : a ∈ trees) (inside' : b ∈ trees) (le : recencyLe a b) (ge : recencyLe b a) : a = b :=
  List.inj_on_of_nodup_map distinct inside inside' (id_eq_of_recencyLe le ge)

private theorem candidates_eq_sorted_twice (nodup : (activeIds s).Nodup) (topLevelOnly : Bool)
    (filter : Option (List String)) :
    candidates (build s) topLevelOnly filter =
      (Order.sortByTexts (fun t => (t.name, t.id))
        (selected (build s) topLevelOnly filter)).mergeSort
          (fun a b => lastUseTicks b ≤ lastUseTicks a) := by
  have later_trans : ∀ a b c : Tree, decide (lastUseTicks b ≤ lastUseTicks a) →
      decide (lastUseTicks c ≤ lastUseTicks b) → decide (lastUseTicks c ≤ lastUseTicks a) := by
    intro a b c first second
    exact decide_eq_true (Nat.le_trans (of_decide_eq_true second) (of_decide_eq_true first))
  have later_total : ∀ a b : Tree, decide (lastUseTicks b ≤ lastUseTicks a) ||
      decide (lastUseTicks a ≤ lastUseTicks b) := by
    intro a b
    simpa using Nat.le_total (lastUseTicks b) (lastUseTicks a)
  have twice := Order.pairwise_mergeSort_mergeSort later_trans later_total
    (fun a b c : Tree => Order.pairLe_trans (a.name, a.id) (b.name, b.id) (c.name, c.id))
    (fun a b => Order.pairLe_total (a.name, a.id) (b.name, b.id))
    (selected (build s) topLevelOnly filter)
  have once : (candidates (build s) topLevelOnly filter).Pairwise (recencyLe · ·) :=
    List.pairwise_mergeSort recencyLe_trans recencyLe_total _
  refine List.Perm.eq_of_pairwise ?_ once (twice.imp ?_) ?_
  · intro a b inside inside' le ge
    rw [candidates_eq_sort, List.mem_mergeSort] at inside
    rw [List.mem_mergeSort, (Order.perm_sortByTexts _ _).mem_iff] at inside'
    exact eq_of_recencyLe (nodup_map_id_selected nodup topLevelOnly filter) inside inside' le ge
  · rintro a b ⟨later, tied⟩
    rw [decide_eq_true_eq] at later
    rw [recencyLe_iff]
    rcases Nat.lt_or_ge (lastUseTicks b) (lastUseTicks a) with more | same
    · exact Or.inl more
    · exact Or.inr ⟨Nat.le_antisymm same later, tied (decide_eq_true same)⟩
  · exact (List.mergeSort_perm _ _).trans
      ((List.mergeSort_perm _ _).trans (Order.perm_sortByTexts _ _)).symm

private theorem recencyLe_congr (a a' b b' : Tree) (first : face a = face a')
    (second : face b = face b') :
    recencyLe a b = recencyLe a' b' := by
  obtain ⟨id, name, used⟩ := (Prod.mk.inj first).imp_right Prod.mk.inj
  obtain ⟨id', name', used'⟩ := (Prod.mk.inj second).imp_right Prod.mk.inj
  unfold recencyLe lastUseTicks
  rw [id, name, used, id', name', used']

private theorem perm_map_face_walk (nodup : (activeIds s).Nodup) :
    ((build s).walk.map face).Perm
      ((s.capabilities.filter isActive).map (fun c => (c.id, c.name, c.lastUsed))) := by
  have walk : (build s).walk.map face = ((build s).walk.map Tree.entry).map
      (fun e => (e.id, e.name, e.capability.lastUsed)) := by
    rw [List.map_map]
    rfl
  rw [walk]
  refine ((perm_map_entry_walk nodup).map _).trans (List.Perm.of_eq ?_)
  exact List.map_map

private theorem map_face_candidates_eq (moved : Rearranged s s') (filter : Option (List String)) :
    (candidates (build s) false filter).map face =
      (candidates (build s') false filter).map face := by
  have nodup := nodup_activeIds_of_rearranged moved
  have chosen : ∀ s : Snapshot, (selected (build s) false filter).map face =
      ((build s).walk.map face).filter (fun f => isSelected filter f.1) := by
    intro s
    rw [List.filter_map]
    rfl
  refine Order.map_mergeSort_eq_of_perm recencyLe_trans recencyLe_total recencyLe_congr ?_ ?_
  · change ((selected (build s) false filter).map face).Perm
      ((selected (build s') false filter).map face)
    rw [chosen, chosen]
    refine List.Perm.filter _ ((perm_map_face_walk nodup).trans ?_)
    exact ((moved.capabilities.filter isActive).map _).trans
      (perm_map_face_walk (nodup_activeIds_of_rearranged moved.symm)).symm
  · intro a inside b inside' le ge
    exact congrArg face (eq_of_recencyLe (nodup_map_id_selected nodup false filter) inside inside'
      le ge)

end Candidates

theorem checkedTimeline_eq {h : Hierarchy} {c : TimelineConfig Float} {columns : Nat}
    (valid : c.check = .ok ()) (made : c.columns = .ok columns) (now : Int)
    (filter : Option (List String)) :
    checkedTimeline h c now filter =
      .ok (timelineOf c.style columns now (candidates h c.topLevelOnly filter)) := by
  rw [checkedTimeline, valid, timeline, made]
  rfl

/-- What a request in range with finite widths is answered with, unless their quotient overflows.
Every selected capability has one card, the most recent ones first. The buckets with cards are
listed in their order, each with the ids of its cards and under a separator. The order of the nodes
does not matter if all levels are shown, even where containers run in circles. -/
theorem timeline_by_recency {payload : Payload} {s : Snapshot}
    (accepted : Snapshot.ofPayload payload = .ok s) (c : TimelineConfig Float) (now : Int)
    (filter : Option (List String)) (valid : c.check = .ok ())
    (container : c.containerWidth.isFinite) (width : c.style.cardWidth.isFinite)
    (fits : (reducedQuotient c.containerWidth c.style.cardWidth).isFinite) :
    candidates (build s) c.topLevelOnly filter =
      (Order.sortByTexts (fun t => (t.name, t.id))
        (selected (build s) c.topLevelOnly filter)).mergeSort
          (fun a b => lastUseTicks b ≤ lastUseTicks a) ∧
    ∃ line, checkedTimeline (build s) c now filter = .ok line ∧
      (line.cards.map Card.tree).Perm (selected (build s) c.topLevelOnly filter) ∧
      (line.cards.map Card.id).Nodup ∧
      line.cards.Pairwise (fun a b => ListedLe now a.tree b.tree) ∧
      (monthTicks ≤ now → line.cards.Pairwise (fun a b => recencyLe a.tree b.tree)) ∧
      (∀ card ∈ line.cards, card.bucket = bucketOf now card.tree) ∧
      line.buckets =
        (Bucket.all.filter (fun b => line.cards.any (fun card => card.bucket = b))).map (fun b =>
          (b, (line.cards.filter (fun card => card.bucket = b)).map Card.id)) ∧
      line.buckets.flatMap Prod.snd = line.cards.map Card.id ∧
      line.separators.map Separator.bucket = line.buckets.map Prod.fst ∧
      (c.topLevelOnly = false → ∀ payload', Permuted payload payload' →
        ∃ s' line', Snapshot.ofPayload payload' = .ok s' ∧
          checkedTimeline (build s') c now filter = .ok line' ∧ line'.plan = line.plan) := by
  have nodup := nodup_activeIds accepted
  obtain ⟨columns, made⟩ := (exists_columns_iff container width).mpr fits
  have sorted : (candidates (build s) c.topLevelOnly filter).Pairwise (recencyLe · ·) :=
    List.pairwise_mergeSort recencyLe_trans recencyLe_total _
  have listed := pairwise_listedLe_cards c.style columns now sorted
  have trees : ((timelineOf c.style columns now
      (candidates (build s) c.topLevelOnly filter)).cards.map Card.tree).Perm
        (selected (build s) c.topLevelOnly filter) :=
    (perm_map_tree_cards _ _ _ _).trans (List.mergeSort_perm _ _)
  obtain ⟨buckets, separators⟩ := buckets_timelineOf c.style columns now
    (candidates (build s) c.topLevelOnly filter)
  refine ⟨candidates_eq_sorted_twice nodup _ _, _, checkedTimeline_eq valid made now filter, trees,
    ?_, listed, fun late => listed.imp (listedLe_iff_of_late late).mp,
    fun card member => bucket_eq_of_mem_cards _ _ _ _ member, buckets,
    flatMap_buckets_timelineOf _ _ _ _, separators, ?_⟩
  · have ids := (trees.map Tree.id).nodup_iff.mpr (nodup_map_id_selected nodup _ _)
    rw [List.map_map] at ids
    exact ids
  · intro whole payload' permuted
    obtain ⟨s', accepted', moved⟩ := Snapshot.exists_rearranged_of_permuted permuted accepted
    refine ⟨s', _, accepted', checkedTimeline_eq valid made now filter, ?_⟩
    rw [whole]
    exact plan_timelineOf now (map_face_candidates_eq moved filter).symm

def turnedCirclePayload : Payload :=
  .record [
    ("nodes", .list (["c", "b", "a"].map (fun id =>
      .record [("id", .text id), ("type", .text "capability"), ("usage_count", .int 1)]))),
    ("edges", .list ([("a", "b"), ("b", "a"), ("b", "c")].map (fun ends =>
      .record [("source", .text ends.1), ("target", .text ends.2),
        ("edge_type", .text "contains")])))]

private theorem permuted_turnedCirclePayload : Permuted circlePayload turnedCirclePayload :=
  ⟨_, _, _, _, _, rfl, rfl, rfl, rfl, rfl, rfl, (List.reverse_perm _).symm, by decide⟩

private theorem check_wholeConfig : (wholeConfig 800).check = .ok () := by
  decide +kernel

private theorem checkedTimeline_wholeConfig {h : Hierarchy}
    (sorted : h.walk.Pairwise (recencyLe · ·)) (now : Int) :
    checkedTimeline h (wholeConfig 800) now none =
      .ok (timelineOf TimelineStyle.standard 4 now h.walk) := by
  rw [checkedTimeline, check_wholeConfig]
  exact timeline_wholeConfig sorted now

theorem timeline_by_recency_of_circle :
    ∃ s' line line', Snapshot.ofPayload circlePayload = .ok circleSnapshot ∧
      Snapshot.ofPayload turnedCirclePayload = .ok s' ∧
      checkedTimeline (build circleSnapshot) (wholeConfig 800) monthTicks none = .ok line ∧
      checkedTimeline (build s') (wholeConfig 800) monthTicks none = .ok line' ∧
      line.buckets = [(.older, ["a", "b", "c"])] ∧ line'.buckets = line.buckets ∧
      line'.cards.map Card.id = ["a", "b", "c"] := by
  have shown := checkedTimeline_wholeConfig (h := build circleSnapshot) (by decide +kernel)
    monthTicks
  obtain ⟨-, line, made, -, -, -, -, -, -, -, -, turned⟩ :=
    timeline_by_recency accepted_circlePayload (wholeConfig 800) monthTicks none check_wholeConfig
      (by decide +kernel) (by decide +kernel) (by decide +kernel)
  obtain ⟨s', line', accepted', made', same⟩ := turned rfl _ permuted_turnedCirclePayload
  have listed : line.buckets = [(.older, ["a", "b", "c"])] := by
    obtain rfl := Except.ok.inj (shown.symm.trans made)
    decide +kernel
  refine ⟨s', line, line', accepted_circlePayload, accepted', made, made', listed,
    congrArg Plan.buckets same, ?_⟩
  have cards : line'.cards.map Card.id = line.cards.map Card.id := by
    have ids := congrArg (fun plan => plan.cards.map Prod.fst) same
    dsimp only [Timeline.plan] at ids
    rw [List.map_map, List.map_map] at ids
    exact ids
  rw [cards]
  obtain rfl := Except.ok.inj (shown.symm.trans made)
  decide +kernel

/-- A capability never used and one last used at the start of time. -/
def startOfTimeSnapshot : Snapshot where
  tools := []
  capabilities := [("a", none), ("b", some ⟨0, by decide⟩)].map (fun used => {
    id := used.1
    name := used.1
    usageCount := 1
    successRate := 0
    pagerank := 0
    lastUsed := used.2
    communityId := none
    description := .null
    fqdn := .null
    codeSnippet := .null
    parentId := none })
  edges := []

def startOfTimePayload : Payload :=
  .record [
    ("nodes", .list [
      .record [("id", .text "a"), ("type", .text "capability"), ("usage_count", .int 1)],
      .record [("id", .text "b"), ("type", .text "capability"), ("usage_count", .int 1),
        ("last_used", .text "0001-01-01T00:00:00Z")]]),
    ("edges", .list [])]

private theorem accepted_startOfTimePayload :
    Snapshot.ofPayload startOfTimePayload = .ok startOfTimeSnapshot := rfl

/-- Cards so narrow that the columns of a container cannot be counted. -/
def hairlineConfig : TimelineConfig Float where
  containerWidth := 10000000000
  style := { TimelineStyle.standard with cardWidth := 5e-324 }
  topLevelOnly := false

/-- A day after the start of time the two are in different buckets and not in the order of their
ids. And finite widths may have no finite quotient. -/
theorem not_timeline_by_recency :
    (∃ line, Snapshot.ofPayload startOfTimePayload = .ok startOfTimeSnapshot ∧
      checkedTimeline (build startOfTimeSnapshot) (wholeConfig 800) dayTicks none = .ok line ∧
      line.buckets = [(.thisWeek, ["b"]), (.older, ["a"])] ∧
      ¬ line.cards.Pairwise (fun a b => recencyLe a.tree b.tree)) ∧
    hairlineConfig.check = .ok () ∧ hairlineConfig.containerWidth.isFinite ∧
      hairlineConfig.style.cardWidth.isFinite ∧
      checkedTimeline (build circleSnapshot) hairlineConfig dayTicks none = .error .overflow := by
  have sorted : (build startOfTimeSnapshot).walk.Pairwise (recencyLe · ·) := by decide +kernel
  have valid : hairlineConfig.check = .ok () := by decide +kernel
  have overflow : hairlineConfig.columns = .error .overflow := by decide +kernel
  refine ⟨⟨_, accepted_startOfTimePayload, checkedTimeline_wholeConfig sorted dayTicks, ?_, ?_⟩,
    valid, ?_, ?_, ?_⟩
  · decide +kernel
  · decide +kernel
  · decide +kernel
  · decide +kernel
  · rw [checkedTimeline, valid, timeline, overflow]
    rfl

end CapabilityAtlas.Layout
