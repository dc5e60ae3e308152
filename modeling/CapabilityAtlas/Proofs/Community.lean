import CapabilityAtlas.Proofs.Geometry.Merge
import CapabilityAtlas.Proofs.Overlay

set_option autoImplicit false
set_option relaxedAutoImplicit false

/-!
Members of the hulls around communities. A hull lists the used capabilities of its community and
their tools, each once. A tool that belongs to capabilities of two communities is in the hulls of
both, and a merged hull takes over the lists as they are.
-/

namespace CapabilityAtlas

open CapabilityAtlas.Geometry CapabilityAtlas.Hierarchy

namespace Engine

variable {settings : Settings Float} {payload : Payload} {s : Snapshot}
  {positions : Keyed (Point Float)} {padding : Option Float} {community other : Int} {id : String}
  {hull hull' : HullGroup Float}

/-- Whether a used capability with a given id belongs to a community. -/
def InCommunity (s : Snapshot) (community : Int) (id : String) : Prop :=
  ∃ c ∈ s.capabilities.filter isActive, c.id = id ∧ c.communityId = some community

instance decidableInCommunity (s : Snapshot) (community : Int) (id : String) :
    Decidable (InCommunity s community id) :=
  inferInstanceAs (Decidable (∃ c ∈ _, _))

def HasToolIn (s : Snapshot) (community : Int) (p : Placement) : Prop :=
  ∃ parent ∈ p.parents, InCommunity s community parent

instance decidableHasToolIn (s : Snapshot) (community : Int) (p : Placement) :
    Decidable (HasToolIn s community p) :=
  inferInstanceAs (Decidable (∃ parent ∈ _, _))

/-- Whether some tool belongs to capabilities of two communities. -/
def ShareTool (s : Snapshot) (community other : Int) : Prop :=
  ∃ p ∈ (build s).placements, HasToolIn s community p ∧ HasToolIn s other p

instance decidableShareTool (s : Snapshot) (community other : Int) :
    Decidable (ShareTool s community other) :=
  inferInstanceAs (Decidable (∃ p ∈ _, _))

/-- The hulls around the communities before they are merged. -/
def outlinedCommunities (settings : Settings Float) (s : Snapshot)
    (positions : Keyed (Point Float)) (padding : Option Float) : List (HullGroup Float) :=
  (communities (build s)).filterMap (communityHull? settings (build s) positions padding)

private theorem mem_active_of_inCommunity (inside : InCommunity s community id) :
    id ∈ activeIds s := by
  obtain ⟨c, used, rfl, -⟩ := inside
  exact List.mem_map_of_mem used

private theorem community_unique (accepted : Snapshot.ofPayload payload = .ok s)
    (inside : InCommunity s community id) (inside' : InCommunity s other id) :
    community = other := by
  obtain ⟨c, used, rfl, own⟩ := inside
  obtain ⟨d, used', same, own'⟩ := inside'
  obtain rfl := List.inj_on_of_nodup_map (nodup_activeIds accepted) used used' same.symm
  exact Option.some.inj (own.symm.trans own')

private theorem mem_communityMembers_iff (accepted : Snapshot.ofPayload payload = .ok s) :
    id ∈ communityMembers (build s) community ↔
      InCommunity s community id ∨
        ∃ p ∈ (build s).placements, p.tool.id = id ∧ HasToolIn s community p := by
  have nodup := nodup_activeIds accepted
  -- Walking over the tree is walking over the used capabilities.
  have walk : id ∈ communityMembers (build s) community ↔
      ∃ c ∈ s.capabilities.filter isActive, c.communityId = some community ∧
        (id = c.id ∨ ∃ i ∈ instancesIn (build s).placements c.id, i.tool.id = id) := by
    rw [communityMembers, List.mem_flatMap]
    constructor
    · rintro ⟨t, member, inside⟩
      obtain ⟨walked, own⟩ := List.mem_filter.mp member
      obtain ⟨c, used, entry⟩ := entry_of_mem_walk_build nodup walked
      rw [entry] at own
      rw [Tree.id, entry] at inside
      refine ⟨c, used, of_decide_eq_true own, ?_⟩
      rcases List.mem_cons.mp inside with rfl | tool
      · exact Or.inl rfl
      · exact Or.inr (List.mem_map.mp tool)
    · rintro ⟨c, used, own, inside⟩
      obtain ⟨t, walked, entry⟩ : ∃ t ∈ (build s).walk, t.entry =
          entryOf (build s).parents (build s).levels (build s).placements c :=
        List.mem_map.mp ((perm_map_entry_walk nodup).mem_iff.mpr (List.mem_map_of_mem used))
      refine ⟨t, List.mem_filter.mpr ⟨walked, ?_⟩, ?_⟩
      · rw [entry]
        exact decide_eq_true own
      · rw [Tree.id, entry]
        rcases inside with rfl | ⟨i, member, rfl⟩
        · exact List.mem_cons_self
        · exact List.mem_cons_of_mem _ (List.mem_map_of_mem member)
  rw [walk]
  constructor
  · rintro ⟨c, used, own, rfl | ⟨i, member, rfl⟩⟩
    · exact Or.inl ⟨c, used, rfl, own⟩
    · obtain ⟨p, inside, rfl⟩ := List.mem_map.mp member
      obtain ⟨placed, parent⟩ := List.mem_filter.mp inside
      exact Or.inr ⟨p, placed, rfl, c.id, List.contains_iff_mem.mp parent, c, used, rfl, own⟩
  · rintro (⟨c, used, rfl, own⟩ | ⟨p, placed, rfl, _, parent, c, used, rfl, own⟩)
    · exact ⟨c, used, own, Or.inl rfl⟩
    · refine ⟨c, used, own, Or.inr ⟨p.instanceIn c.id, List.mem_map_of_mem ?_, rfl⟩⟩
      exact List.mem_filter.mpr ⟨placed, List.contains_iff_mem.mpr parent⟩

theorem communityHull?_eq_some_iff {h : Hierarchy} :
    communityHull? settings h positions padding community = some hull ↔
      clusterOutline (communityMembers h community) positions padding false settings ≠ [] ∧
        hull = {
          points := clusterOutline (communityMembers h community) positions padding false settings
          color := Palette.communityColor (some community)
          animated := false
          members := firstOccurrences (communityMembers h community) } := by
  unfold communityHull?
  dsimp only
  split
  · rename_i blank
    simp [List.isEmpty_iff.mp blank]
  · rename_i inked
    rw [Option.some.injEq, eq_comm, and_iff_right fun blank => inked (List.isEmpty_iff.mpr blank)]

private theorem members_of_communityHull?
    (drawn : communityHull? settings (build s) positions padding community = some hull) :
    hull.members = firstOccurrences (communityMembers (build s) community) := by
  obtain ⟨-, rfl⟩ := communityHull?_eq_some_iff.mp drawn
  rfl

private theorem mem_members_iff (accepted : Snapshot.ofPayload payload = .ok s)
    (drawn : communityHull? settings (build s) positions padding community = some hull) :
    id ∈ hull.members ↔ InCommunity s community id ∨
      ∃ p ∈ (build s).placements, p.tool.id = id ∧ HasToolIn s community p := by
  rw [members_of_communityHull? drawn, mem_firstOccurrences, mem_communityMembers_iff accepted]

private theorem exists_inCommunity_of_communityHull? (accepted : Snapshot.ofPayload payload = .ok s)
    (drawn : communityHull? settings (build s) positions padding community = some hull) :
    ∃ id, InCommunity s community id := by
  by_contra empty
  have nobody : communityMembers (build s) community = [] := by
    refine List.eq_nil_iff_forall_not_mem.mpr fun id member => ?_
    rcases (mem_communityMembers_iff accepted).mp member with own | ⟨p, -, -, parent, -, own⟩
    · exact empty ⟨_, own⟩
    · exact empty ⟨_, own⟩
  have nowhere : pointsFor [] positions = [] := by
    rw [pointsFor, List.map_eq_nil_iff, List.filter_eq_nil_iff]
    intro entry _
    simp [isWanted]
  refine (communityHull?_eq_some_iff.mp drawn).1 ?_
  rw [nobody, clusterOutline, outline_eq_nil_iff, nowhere]
  decide

private theorem ne_of_communityHull? (accepted : Snapshot.ofPayload payload = .ok s)
    (apart : community ≠ other)
    (drawn : communityHull? settings (build s) positions padding community = some hull)
    (drawn' : communityHull? settings (build s) positions padding other = some hull') :
    hull ≠ hull' := by
  rintro rfl
  obtain ⟨id, own⟩ := exists_inCommunity_of_communityHull? accepted drawn
  have member := (mem_members_iff accepted drawn).mpr (Or.inl own)
  rcases (mem_members_iff accepted drawn').mp member with own' | ⟨p, placed, rfl, -⟩
  · exact apart (community_unique accepted own own')
  · exact toolId_not_mem_activeIds accepted placed (mem_active_of_inCommunity own)

/-- The hulls of two communities have a member in common exactly if these share a tool. -/
theorem disjoint_members_iff (accepted : Snapshot.ofPayload payload = .ok s)
    (apart : community ≠ other)
    (drawn : communityHull? settings (build s) positions padding community = some hull)
    (drawn' : communityHull? settings (build s) positions padding other = some hull') :
    hull.members.Disjoint hull'.members ↔ ¬ ShareTool s community other := by
  constructor
  · rintro disjoint ⟨p, placed, first, second⟩
    have inFirst : p.tool.id ∈ hull.members :=
      (mem_members_iff accepted drawn).mpr (Or.inr ⟨p, placed, rfl, first⟩)
    have inSecond : p.tool.id ∈ hull'.members :=
      (mem_members_iff accepted drawn').mpr (Or.inr ⟨p, placed, rfl, second⟩)
    exact disjoint inFirst inSecond
  · intro alone id member member'
    rcases (mem_members_iff accepted drawn).mp member with own | ⟨p, placed, rfl, first⟩
    · rcases (mem_members_iff accepted drawn').mp member' with own' | ⟨q, placed, rfl, -⟩
      · exact apart (community_unique accepted own own')
      · exact toolId_not_mem_activeIds accepted placed (mem_active_of_inCommunity own)
    · rcases (mem_members_iff accepted drawn').mp member' with own' | ⟨q, placed', same, second⟩
      · exact toolId_not_mem_activeIds accepted placed (mem_active_of_inCommunity own')
      · obtain rfl := eq_of_toolId_eq accepted placed' placed same
        exact alone ⟨q, placed, first, second⟩

private theorem nodup_eraseDups {β : Type} [BEq β] [LawfulBEq β] :
    (members : List β) → members.eraseDups.Nodup
  | [] => by simp
  | first :: rest => by
    rw [List.eraseDups_cons, List.nodup_cons]
    refine ⟨fun again => ?_, nodup_eraseDups _⟩
    have apart := (List.mem_filter.mp (List.mem_eraseDups.mp again)).2
    simp at apart
  termination_by members => members.length
  decreasing_by exact Nat.lt_succ_of_le (List.length_filter_le _ rest)

private theorem nodup_communities (h : Hierarchy) : (communities h).Nodup :=
  (List.mergeSort_perm _ _).nodup_iff.mpr (nodup_eraseDups _)

private theorem nodup_outlinedCommunities (accepted : Snapshot.ofPayload payload = .ok s) :
    (outlinedCommunities settings s positions padding).Nodup := by
  refine (nodup_communities _).filterMap fun community other hull drawn drawn' => ?_
  by_contra apart
  exact ne_of_communityHull? accepted apart drawn drawn' rfl

/-- The members of every hull are distinct exactly if no two communities whose hulls are merged
share a tool. -/
theorem nodup_members_iff (accepted : Snapshot.ofPayload payload = .ok s) (maxHops : Int)
    (limits : Search.Limits) (settings : Settings Float) (positions : Keyed (Point Float))
    (padding : Option Float) :
    (∀ hull ∈ communityHulls (start s maxHops limits settings) positions padding,
        hull.members.Nodup) ↔
      ∀ part ∈ HullGroup.parts (outlinedCommunities settings s positions padding),
        ∀ community other, community ≠ other →
          ∀ hull ∈ communityHull? settings (build s) positions padding community,
          ∀ hull' ∈ communityHull? settings (build s) positions padding other,
            hull ∈ part → hull' ∈ part → ¬ ShareTool s community other := by
  have own : ∀ hull ∈ outlinedCommunities settings s positions padding, hull.members.Nodup := by
    intro hull member
    obtain ⟨community, -, drawn⟩ := List.mem_filterMap.mp member
    rw [members_of_communityHull? drawn]
    exact nodup_firstOccurrences _
  refine (HullGroup.nodup_members_merge_iff own).trans (forall₂_congr fun part listed => ?_)
  have sublist := HullGroup.sublist_of_mem_parts listed
  constructor
  · intro disjoint community other apart hull drawn hull' drawn' inside inside'
    rw [← disjoint_members_iff accepted apart drawn drawn']
    have symmetric : Std.Symm (fun a b : HullGroup Float => a.members.Disjoint b.members) :=
      ⟨fun _ _ => List.Disjoint.symm⟩
    exact disjoint.forall inside inside' (ne_of_communityHull? accepted apart drawn drawn')
  · intro alone
    have nodup : part.Nodup := (nodup_outlinedCommunities accepted).sublist sublist
    refine nodup.pairwise_of_forall_ne fun hull inside hull' inside' different => ?_
    obtain ⟨community, -, drawn⟩ := List.mem_filterMap.mp (sublist.subset inside)
    obtain ⟨other, -, drawn'⟩ := List.mem_filterMap.mp (sublist.subset inside')
    have apart : community ≠ other := by
      rintro rfl
      exact different (Option.some.inj (drawn.symm.trans drawn'))
    rw [disjoint_members_iff accepted apart drawn drawn']
    exact alone community other apart hull drawn hull' drawn' inside inside'

/-- Two communities of one capability each, with a tool in both and a tool of its own for each. -/
def bridgedPayload : Payload :=
  .record [
    ("nodes", .list ([("a", 1), ("b", 2)].map (fun node =>
      .record [("id", .text node.1), ("type", .text "capability"), ("usage_count", .int 1),
        ("community_id", .int node.2)]) ++
      [("t", ["a", "b"]), ("u", ["a"]), ("v", ["b"])].map (fun node =>
        .record [("id", .text node.1), ("type", .text "tool"),
          ("parents", .list (node.2.map .text))]))),
    ("edges", .list [])]

def firstPositions : Keyed (Point Float) := [("a", ⟨0, 0⟩), ("t", ⟨4, 4⟩), ("u", ⟨8, 0⟩)]

def touchingPositions : Keyed (Point Float) :=
  [("a", ⟨0, 0⟩), ("b", ⟨0, 8⟩), ("t", ⟨4, 4⟩), ("u", ⟨8, 0⟩), ("v", ⟨8, 8⟩)]

private theorem outline_of_ascending {padding : Float} {samples : Int} {points : List (Point Float)}
    (distinct : Point.distinct points = points) (several : ¬ points.length < 2)
    (ascending : points.Pairwise (fun p q => Point.notAfter p q)) :
    outline { padding := padding, smooth := false, samples := samples } points =
      padHull padding (hullOfSorted points) := by
  rw [outline, distinct, if_neg several, Geometry.convexHull, Point.sorted, distinct,
    List.mergeSort_of_pairwise ascending]
  rfl

theorem nodup_members_of_bridged :
    ∃ s, Snapshot.ofPayload bridgedPayload = .ok s ∧ ShareTool s 1 2 ∧
      ∀ hull ∈ communityHulls (start s 10 {}) firstPositions (some 0), hull.members.Nodup := by
  obtain ⟨s, accepted, shared, listed, few⟩ : ∃ s,
      Snapshot.ofPayload bridgedPayload = .ok s ∧ ShareTool s 1 2 ∧
      (∀ c ∈ s.capabilities, c.communityId = some 1 ∨ c.communityId = some 2) ∧
      (Point.distinct (pointsFor (communityMembers (build s) 2) firstPositions)).length < 2 :=
    ⟨_, rfl, by decide +kernel, by decide +kernel, by decide +kernel⟩
  refine ⟨s, accepted, shared, ?_⟩
  refine (nodup_members_iff accepted 10 {} Settings.standard firstPositions (some 0)).mpr ?_
  have single : ∀ community hull,
      communityHull? Settings.standard (build s) firstPositions (some 0) community = some hull →
        community = 1 := by
    intro community hull drawn
    obtain ⟨id, c, used, -, own⟩ := exists_inCommunity_of_communityHull? accepted drawn
    rcases listed c (List.mem_filter.mp used).1 with first | second
    · exact Option.some.inj (own.symm.trans first)
    · obtain rfl := Option.some.inj (own.symm.trans second)
      exact ((communityHull?_eq_some_iff.mp drawn).1 ((outline_eq_nil_iff _ _).mpr few)).elim
  intro part _ community other apart hull drawn hull' drawn' _ _
  exact (apart ((single _ _ drawn).trans (single _ _ drawn').symm)).elim

private theorem exists_outlinedCommunities_bridged :
    ∃ s, Snapshot.ofPayload bridgedPayload = .ok s ∧
      outlinedCommunities Settings.standard s touchingPositions (some 0) = [
        { points := [⟨0, 0⟩, ⟨8, 0⟩, ⟨4, 4⟩], color := Palette.communityColor (some 1),
          animated := false, members := ["a", "t", "u"] },
        { points := [⟨0, 8⟩, ⟨4, 4⟩, ⟨8, 8⟩], color := Palette.communityColor (some 2),
          animated := false, members := ["b", "t", "v"] }] := by
  obtain ⟨s, accepted, ids, first, second⟩ : ∃ s, Snapshot.ofPayload bridgedPayload = .ok s ∧
      ((build s).walk.filterMap (fun t => t.entry.capability.communityId)).eraseDups = [1, 2] ∧
      communityMembers (build s) 1 = ["a", "t", "u"] ∧
      communityMembers (build s) 2 = ["b", "t", "v"] :=
    ⟨_, rfl, by decide +kernel, by decide +kernel, by decide +kernel⟩
  have both : communities (build s) = [1, 2] := by
    rw [communities, ids]
    exact List.mergeSort_of_pairwise (by decide)
  have outlineFirst : clusterOutline ["a", "t", "u"] touchingPositions (some 0) false =
      [⟨0, 0⟩, ⟨8, 0⟩, ⟨4, 4⟩] :=
    (outline_of_ascending (by decide +kernel) (by decide +kernel) (by decide +kernel)).trans
      (by decide +kernel)
  have outlineSecond : clusterOutline ["b", "t", "v"] touchingPositions (some 0) false =
      [⟨0, 8⟩, ⟨4, 4⟩, ⟨8, 8⟩] :=
    (outline_of_ascending (by decide +kernel) (by decide +kernel) (by decide +kernel)).trans
      (by decide +kernel)
  have lower : communityHull? Settings.standard (build s) touchingPositions (some 0) 1 = some _ :=
    communityHull?_eq_some_iff.mpr ⟨by rw [first, outlineFirst]; decide, rfl⟩
  have upper : communityHull? Settings.standard (build s) touchingPositions (some 0) 2 = some _ :=
    communityHull?_eq_some_iff.mpr ⟨by rw [second, outlineSecond]; decide, rfl⟩
  rw [first, outlineFirst] at lower
  rw [second, outlineSecond] at upper
  refine ⟨s, accepted, ?_⟩
  rw [outlinedCommunities, both, List.filterMap_cons_some lower, List.filterMap_cons_some upper]
  rfl

/-- The hulls of both communities are merged, and the tool that is in both occurs twice. -/
theorem not_nodup_members :
    ∃ s, Snapshot.ofPayload bridgedPayload = .ok s ∧
      (communityHulls (start s 10 {}) touchingPositions (some 0)).map HullGroup.members =
        [["a", "t", "u", "b", "t", "v"]] ∧
      ¬ ∀ hull ∈ communityHulls (start s 10 {}) touchingPositions (some 0),
        hull.members.Nodup := by
  obtain ⟨s, accepted, hulls⟩ := exists_outlinedCommunities_bridged
  have merged : (communityHulls (start s 10 {}) touchingPositions (some 0)).map HullGroup.members =
      [["a", "t", "u", "b", "t", "v"]] := by
    change (HullGroup.merge
      (outlinedCommunities Settings.standard s touchingPositions (some 0))).map _ = _
    rw [hulls, HullGroup.merge]
    decide +kernel
  refine ⟨s, accepted, merged, fun distinct => ?_⟩
  have all : ∀ members ∈ [["a", "t", "u", "b", "t", "v"]], members.Nodup := by
    rw [← merged]
    exact List.forall_mem_map.mpr distinct
  exact absurd (all _ List.mem_cons_self) (by decide)

end Engine

end CapabilityAtlas
