import CapabilityAtlas.Proofs.Layout.Timeline

set_option autoImplicit false
set_option relaxedAutoImplicit false

/-!
The buckets of a timeline. Those with members are listed in their order, each with the ids of its
cards and with a separator. Where the cards stand depends on the ids in the buckets and on nothing
else that is known of the capabilities.
-/

namespace CapabilityAtlas.Layout

open CapabilityAtlas.Hierarchy

variable {α : Type} [Add α] [Sub α] [Mul α] [NatCast α] (style : TimelineStyle α) (columns : Nat)

def filled (groups : List (Bucket × List Tree)) : List (Bucket × List Tree) :=
  groups.filter (fun group => !group.2.isEmpty)

/-- Buckets put below a timeline are listed with their members and headed, unless they are empty. -/
private theorem foldl_addBucket_buckets (groups : List (Bucket × List Tree)) (line : Timeline α) :
    (groups.foldl (addBucket style columns) line).buckets =
        line.buckets ++ (filled groups).map (fun group => (group.1, group.2.map Tree.id)) ∧
      (groups.foldl (addBucket style columns) line).separators.map Separator.bucket =
        line.separators.map Separator.bucket ++ (filled groups).map Prod.fst := by
  induction groups generalizing line with
  | nil => simp [filled]
  | cons group rest ih =>
    obtain ⟨bucket, members⟩ := group
    obtain ⟨buckets, separators⟩ := ih (addBucket style columns line (bucket, members))
    rw [List.foldl_cons, buckets, separators]
    cases members with
    | nil => exact ⟨rfl, rfl⟩
    | cons first others =>
      have more : filled ((bucket, first :: others) :: rest) =
          (bucket, first :: others) :: filled rest := rfl
      rw [more]
      constructor
      · exact List.append_assoc _ _ _
      · rw [addBucket, if_neg (by simp), List.map_append, List.append_assoc]
        rfl

section Listing

variable (now : Int) (trees : List Tree)

theorem bucket_eq_of_mem_cards {c : Card α}
    (member : c ∈ (timelineOf style columns now trees).cards) :
    c.bucket = bucketOf now c.tree := by
  have labelled := List.mem_map_of_mem (f := Card.labelled) member
  rw [map_labelled_cards] at labelled
  obtain ⟨t, -, same⟩ := List.mem_map.mp labelled
  obtain ⟨bucket, tree⟩ := Prod.mk.inj same
  rw [← bucket, ← tree]

private theorem map_tree_filter_cards (b : Bucket) :
    ((timelineOf style columns now trees).cards.filter (fun c => c.bucket = b)).map Card.tree =
      trees.filter (fun t => bucketOf now t = b) := by
  have own : ∀ c ∈ (timelineOf style columns now trees).cards,
      decide (c.bucket = b) = decide (bucketOf now c.tree = b) := by
    intro c member
    rw [bucket_eq_of_mem_cards style columns now trees member]
  calc ((timelineOf style columns now trees).cards.filter (fun c => c.bucket = b)).map Card.tree
      = ((timelineOf style columns now trees).cards.filter
          (fun c => bucketOf now c.tree = b)).map Card.tree :=
        congrArg (List.map Card.tree) (List.filter_congr own)
    _ = ((timelineOf style columns now trees).cards.map Card.tree).filter
          (fun t => bucketOf now t = b) := by
        rw [List.filter_map]
        rfl
    _ = trees.filter (fun t => bucketOf now t = b) := by
      rw [map_tree_cards]
      exact filter_flatMap_filter (bucketOf now) (by decide) (Bucket.mem_all b) trees

private theorem filled_grouped :
    filled (grouped now trees) =
      (Bucket.all.filter (fun b =>
        (timelineOf style columns now trees).cards.any (fun c => c.bucket = b))).map (fun b =>
          (b, trees.filter (fun t => bucketOf now t = b))) := by
  have shown : ∀ b, (!(trees.filter (fun t => bucketOf now t = b)).isEmpty) =
      (timelineOf style columns now trees).cards.any (fun c => c.bucket = b) := by
    intro b
    rw [← map_tree_filter_cards style columns, List.isEmpty_map, Bool.eq_iff_iff]
    simp
  rw [filled, grouped, List.filter_map]
  exact congrArg _ (List.filter_congr fun b _ => shown b)

/-- A timeline lists the buckets that have cards, each with the ids of its cards, and has separators
for just these. -/
theorem buckets_timelineOf :
    (timelineOf style columns now trees).buckets =
        (Bucket.all.filter (fun b =>
          (timelineOf style columns now trees).cards.any (fun c => c.bucket = b))).map (fun b =>
            (b, ((timelineOf style columns now trees).cards.filter
              (fun c => c.bucket = b)).map Card.id)) ∧
      (timelineOf style columns now trees).separators.map Separator.bucket =
        (timelineOf style columns now trees).buckets.map Prod.fst := by
  obtain ⟨buckets, separators⟩ := foldl_addBucket_buckets style columns (grouped now trees)
    { cards := [], separators := [], buckets := [], height := style.baseY }
  have ids : ∀ b, (trees.filter (fun t => bucketOf now t = b)).map Tree.id =
      ((timelineOf style columns now trees).cards.filter (fun c => c.bucket = b)).map Card.id := by
    intro b
    rw [← map_tree_filter_cards style columns, List.map_map]
    rfl
  constructor
  · refine buckets.trans ?_
    rw [filled_grouped style columns, List.nil_append, List.map_map]
    exact List.map_congr_left fun b _ => congrArg (b, ·) (ids b)
  · refine separators.trans (Eq.trans ?_ (congrArg (List.map Prod.fst) buckets).symm)
    rw [List.map_append, List.map_map]
    rfl

private theorem flatMap_filled (groups : List (Bucket × List Tree)) :
    (filled groups).flatMap Prod.snd = groups.flatMap Prod.snd := by
  induction groups with
  | nil => rfl
  | cons group rest ih =>
    obtain ⟨bucket, members⟩ := group
    cases members with
    | nil => exact ih
    | cons first others => exact congrArg ((first :: others) ++ ·) ih

theorem flatMap_buckets_timelineOf :
    (timelineOf style columns now trees).buckets.flatMap Prod.snd =
      (timelineOf style columns now trees).cards.map Card.id := by
  have buckets := (foldl_addBucket_buckets style columns (grouped now trees)
    { cards := [], separators := [], buckets := [], height := style.baseY }).1
  have listed : (timelineOf style columns now trees).buckets =
      (filled (grouped now trees)).map (fun group => (group.1, group.2.map Tree.id)) := buckets
  have ids : (timelineOf style columns now trees).cards.map Card.id =
      ((timelineOf style columns now trees).cards.map Card.tree).map Tree.id := List.map_map.symm
  have all : (grouped now trees).flatMap Prod.snd = regrouped now trees := List.flatMap_map ..
  rw [listed, ids, map_tree_cards, ← all, ← flatMap_filled, List.map_flatMap, List.flatMap_map]

end Listing

/-- What a timeline shows apart from the contents of its cards. -/
structure Plan (α : Type) where
  cards : List (String × Bucket × GridPosition α)
  separators : List (Separator α)
  buckets : List (Bucket × List String)
  height : α

def Timeline.plan {α : Type} (line : Timeline α) : Plan α where
  cards := line.cards.map (fun c => (c.id, c.bucket, c.position))
  separators := line.separators
  buckets := line.buckets
  height := line.height

omit [Sub α] in
private theorem map_place_cards (bucket : Bucket) (y : α) (members : List Tree) :
    (members.mapIdx (card style columns bucket y)).map (fun c => (c.id, c.bucket, c.position)) =
      (members.map Tree.id).mapIdx (fun index id =>
        (id, bucket, cell columns style.marginX y style.cardWidth style.rowHeight index)) := by
  apply List.ext_getElem
  · simp
  · intro index _ _
    simp only [List.getElem_map, List.getElem_mapIdx]
    rfl

variable {style columns} {line line' : Timeline α} {members members' : List Tree}

private theorem plan_addBucket (same : line.plan = line'.plan) (bucket : Bucket)
    (ids : members.map Tree.id = members'.map Tree.id) :
    (addBucket style columns line (bucket, members)).plan =
      (addBucket style columns line' (bucket, members')).plan := by
  obtain ⟨cards, separators, buckets, height⟩ := Plan.mk.inj same
  have lengths : members.length = members'.length := by
    have := congrArg List.length ids
    rwa [List.length_map, List.length_map] at this
  have empty : members.isEmpty = members'.isEmpty := by
    rw [Bool.eq_iff_iff, List.isEmpty_iff_length_eq_zero, List.isEmpty_iff_length_eq_zero, lengths]
  unfold addBucket
  dsimp only
  rw [empty]
  split
  · exact same
  · rw [Timeline.plan, Timeline.plan]
    simp only [List.map_append, map_place_cards, cards, separators, buckets, height, ids, lengths]

theorem plan_foldl_addBucket (keys : List Bucket) {groups groups' : Bucket → List Tree}
    (ids : ∀ b, (groups b).map Tree.id = (groups' b).map Tree.id) (same : line.plan = line'.plan) :
    ((keys.map (fun b => (b, groups b))).foldl (addBucket style columns) line).plan =
      ((keys.map (fun b => (b, groups' b))).foldl (addBucket style columns) line').plan := by
  induction keys generalizing line line' with
  | nil => exact same
  | cons b rest ih => exact ih (plan_addBucket same b (ids b))

/-- What a timeline knows of a capability besides its contents. -/
def face (t : Tree) : String × String × Option Calendar.Instant :=
  (t.id, t.name, t.entry.capability.lastUsed)

theorem plan_timelineOf (now : Int) {trees trees' : List Tree}
    (same : trees.map face = trees'.map face) :
    (timelineOf style columns now trees).plan = (timelineOf style columns now trees').plan := by
  refine plan_foldl_addBucket Bucket.all (fun b => ?_) rfl
  have ids : ∀ trees : List Tree, (trees.filter (fun t => bucketOf now t = b)).map Tree.id =
      ((trees.map face).filter (fun f => Bucket.ofLastUse now f.2.2 = b)).map Prod.fst := by
    intro trees
    rw [List.filter_map, List.map_map]
    rfl
  have other := ids trees'
  rw [← same] at other
  exact (ids trees).trans other.symm

end CapabilityAtlas.Layout
