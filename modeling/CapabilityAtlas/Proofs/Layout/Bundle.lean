import CapabilityAtlas.Layout.Radial
import CapabilityAtlas.Proofs.Layout.Ring
import CapabilityAtlas.Proofs.Layout.Route
import CapabilityAtlas.Proofs.Numeral.Decimal
import Mathlib.Data.List.Nodup

set_option autoImplicit false
set_option relaxedAutoImplicit false

/-!
Ids with numbers. The occurrences of an id are told apart by a hyphen and a number, and the last
hyphen shows where the number starts. So numbered ids never meet each other, but one of them may
meet an id that ends in a hyphen and a number itself.
-/

namespace CapabilityAtlas.Layout

open CapabilityAtlas.Numeral

/-- The id of an occurrence with its number; the first one keeps the plain id. -/
def numbered (id : String) (number : Nat) : String :=
  if number = 0 then id else id ++ "-" ++ integerText number

/-- The members of a list, each with the number of its earlier occurrences. -/
def occurrences (earlier : List String) : List String → List (String × Nat)
  | [] => []
  | id :: rest => (id, earlier.count id) :: occurrences (id :: earlier) rest

private theorem numberRepeats_eq_map (earlier ids : List String) :
    numberRepeats earlier ids = (occurrences earlier ids).map (fun o => numbered o.1 o.2) := by
  induction ids generalizing earlier with
  | nil => rfl
  | cons id rest ih =>
    rw [numberRepeats, occurrences, List.map_cons, ih]
    congr 1
    unfold numbered
    by_cases known : id ∈ earlier
    · have positive : earlier.count id ≠ 0 := by
        have := List.count_pos_iff.mpr known
        omega
      rw [if_pos (List.contains_iff_mem.mpr known), if_neg positive]
    · rw [if_neg (fun h => known (List.contains_iff_mem.mp h)),
        if_pos (List.count_eq_zero.mpr known)]

private theorem length_numberRepeats (earlier ids : List String) :
    (numberRepeats earlier ids).length = ids.length := by
  induction ids generalizing earlier with
  | nil => rfl
  | cons id rest ih => rw [numberRepeats, List.length_cons, List.length_cons, ih]

private theorem mem_occurrences_iff {earlier ids : List String} {id : String} {number : Nat} :
    (id, number) ∈ occurrences earlier ids ↔
      earlier.count id ≤ number ∧ number < earlier.count id + ids.count id := by
  induction ids generalizing earlier with
  | nil =>
    simp only [occurrences, List.not_mem_nil, List.count_nil, false_iff]
    omega
  | cons head rest ih =>
    rw [occurrences, List.mem_cons, ih, Prod.mk.injEq]
    by_cases same : head = id
    · subst same
      rw [List.count_cons_self, List.count_cons_self]
      constructor
      · rintro (⟨-, rfl⟩ | ⟨low, high⟩) <;> omega
      · rintro ⟨low, high⟩
        by_cases first : number = earlier.count head
        · exact Or.inl ⟨rfl, first⟩
        · exact Or.inr (by omega)
    · rw [List.count_cons_of_ne same, List.count_cons_of_ne same]
      have other : ¬ id = head := fun h => same h.symm
      simp [other]

private theorem nodup_occurrences (earlier ids : List String) :
    (occurrences earlier ids).Nodup := by
  induction ids generalizing earlier with
  | nil => exact List.nodup_nil
  | cons id rest ih =>
    rw [occurrences, List.nodup_cons, mem_occurrences_iff, List.count_cons_self]
    exact ⟨by omega, ih _⟩

/-- What follows the last hyphen does not show how the text before it is made. -/
private theorem eq_of_append_hyphen {front front' back back' : List Char} (clear : '-' ∉ back)
    (clear' : '-' ∉ back') (same : front ++ '-' :: back = front' ++ '-' :: back') :
    front = front' ∧ back = back' := by
  -- If one front were longer, the other back would hold the hyphen that ends it.
  rcases List.append_eq_append_iff.mp same with ⟨middle, rfl, split⟩ | ⟨middle, rfl, split⟩
  · cases middle with
    | nil => simpa using split
    | cons c rest =>
      obtain ⟨-, rfl⟩ := List.cons.inj split
      simp at clear
  · cases middle with
    | nil => simpa [eq_comm] using split
    | cons c rest =>
      obtain ⟨-, rfl⟩ := List.cons.inj split
      simp at clear'

private theorem numbered_inj {id id' : String} {number number' : Nat} (positive : 0 < number)
    (positive' : 0 < number') (same : numbered id number = numbered id' number') :
    id = id' ∧ number = number' := by
  have clear : ∀ n, '-' ∉ digits n := by
    intro n member
    have digit := isDigit_of_mem_digits member
    simp at digit
  have spelled : ∀ (id : String) (n : Nat), 0 < n →
      (numbered id n).toList = id.toList ++ '-' :: digits n := by
    intro id n positive
    rw [numbered, if_neg (by omega), String.toList_append, String.toList_append,
      toList_integerText, List.append_assoc]
    rfl
  have texts := congrArg String.toList same
  rw [spelled id number positive, spelled id' number' positive'] at texts
  obtain ⟨fronts, backs⟩ := eq_of_append_hyphen (clear number) (clear number') texts
  refine ⟨String.toList_inj.mp fronts, ?_⟩
  rw [← digitsValue_digits number, backs, digitsValue_digits]

/-- Numbering tells all occurrences apart, unless a repeated id with a number is an id as well. -/
theorem nodup_numberRepeats_iff (ids : List String) :
    (numberRepeats [] ids).Nodup ↔
      ∀ id number, 0 < number → number < ids.count id → numbered id number ∉ ids := by
  -- Occurrences are distinct as pairs, so that only writing down the number can make two meet.
  rw [numberRepeats_eq_map, List.nodup_map_iff_inj_on (nodup_occurrences [] ids)]
  have occurs : ∀ id number, (id, number) ∈ occurrences [] ids ↔ number < ids.count id := by
    intro id number
    rw [mem_occurrences_iff]
    simp
  constructor
  · intro apart id number positive repeated member
    have first := (occurs (numbered id number) 0).mpr (List.count_pos_iff.mpr member)
    have later := (occurs id number).mpr repeated
    have same := apart _ later _ first rfl
    have zero : number = 0 := congrArg Prod.snd same
    omega
  · rintro free ⟨id, number⟩ one ⟨id', number'⟩ two same
    rw [occurs] at one two
    rcases Nat.eq_zero_or_pos number with rfl | positive
    · rcases Nat.eq_zero_or_pos number' with rfl | positive'
      · exact congrArg (·, 0) same
      · refine (free id' number' positive' two ?_).elim
        rw [← same]
        exact List.count_pos_iff.mp one
    · rcases Nat.eq_zero_or_pos number' with rfl | positive'
      · refine (free id number positive one ?_).elim
        rw [same]
        exact List.count_pos_iff.mp two
      · obtain ⟨rfl, rfl⟩ := numbered_inj positive positive' same
        rfl

end CapabilityAtlas.Layout

/-!
The paths of a hierarchy on its own rings. Every connection has both ends on the rings and a route
between them, so all are drawn, and their ids are the numbered plain ones.
-/

namespace CapabilityAtlas.Layout

open CapabilityAtlas.Geometry CapabilityAtlas.Hierarchy

variable {payload : Payload} {s : Snapshot} {includeOrphans : Bool}

def plainIds (h : Hierarchy) (includeOrphans : Bool) : List String :=
  (connections h (ringToolIds h includeOrphans)).map Connection.plainId

/-- Whether an id is that of a used capability or of a tool on the outer ring. -/
def OnRings (s : Snapshot) (includeOrphans : Bool) (id : String) : Prop :=
  id ∈ activeIds s ∨ id ∈ ringToolIds (build s) includeOrphans

private theorem of_mem_memberships {parents : List String} {toolId : String} {c : Connection}
    (member : c ∈ memberships parents toolId) : c.source ∈ parents ∧ c.target = toolId := by
  cases parents with
  | nil => simp [memberships] at member
  | cons first rest =>
    rcases List.mem_cons.mp member with rfl | further
    · exact ⟨List.mem_cons_self, rfl⟩
    · obtain ⟨parent, inside, rfl⟩ := List.mem_map.mp further
      exact ⟨List.mem_cons_of_mem _ inside, rfl⟩

private theorem onRings_of_related {first second : String}
    (together : related (build s).placements first second) :
    OnRings s includeOrphans first ∧ OnRings s includeOrphans second := by
  obtain ⟨p, hp, both⟩ := List.any_eq_true.mp together
  rw [Bool.and_eq_true, decide_eq_true_eq] at both
  obtain ⟨rfl, other⟩ := both
  obtain ⟨q, hq, same⟩ := List.any_eq_true.mp other
  rw [Bool.and_eq_true, decide_eq_true_eq] at same
  obtain ⟨rfl, -⟩ := same
  exact ⟨Or.inr (mem_ringToolIds_of_placement hp _), Or.inr (mem_ringToolIds_of_placement hq _)⟩

private theorem onRings_of_mem_connections {c : Connection}
    (member : c ∈ connections (build s) (ringToolIds (build s) includeOrphans)) :
    OnRings s includeOrphans c.source ∧ OnRings s includeOrphans c.target := by
  rw [connections, List.mem_append, List.mem_append] at member
  -- A membership ends at a tool on the ring, every other connection joins what has a place anyway.
  rcases member with (belongs | nested) | flow
  · obtain ⟨toolId, onRing, member⟩ := List.mem_flatMap.mp belongs
    obtain ⟨parent, rfl⟩ := of_mem_memberships member
    exact ⟨Or.inl (mem_activeIds_of_mem_parentsOf parent), Or.inr onRing⟩
  · obtain ⟨l, hl, rfl⟩ := List.mem_map.mp nested
    obtain ⟨e, he, rfl⟩ := List.mem_map.mp hl
    have ends := (List.mem_filter.mp he).2
    rw [Bool.and_eq_true, List.contains_iff_mem, List.contains_iff_mem] at ends
    exact ⟨Or.inl ends.1, Or.inl ends.2⟩
  · obtain ⟨l, hl, rfl⟩ := List.mem_map.mp flow
    obtain ⟨e, he, rfl⟩ := List.mem_map.mp hl
    have together := (List.mem_filter.mp he).2
    rw [Bool.and_eq_true] at together
    exact onRings_of_related together.2

private theorem of_bundledPath {α : Type} [Add α] [Sub α] [Mul α] [Div α] [NatCast α]
    {h : Hierarchy}
    {r : Rings α} {tension : α} {id : String} {c : Connection} {path : BundledPath α}
    (made : bundledPath h r tension id c = .ok path) : path.id = id ∧ path.connection = c := by
  obtain ⟨points, -, made⟩ := Fault.ok_of_bind made
  obtain rfl := Except.ok.inj made
  exact ⟨rfl, rfl⟩

section Place

variable {α : Type} [NatCast α] [LT α] [LE α] [DecidableLT α] [DecidableLE α] [Add α] [Sub α]
  [Mul α] [Div α] [Circular α] [OfBinary α] (nodup : (activeIds s).Nodup) (c : RadialConfig α)

include nodup

theorem isSome_point?_of_onRings {id : String} (onRings : OnRings s c.includeOrphans id) :
    ((place (build s) c).point? id).isSome := by
  rw [isSome_point?_place_iff, (perm_walk_build nodup).mem_iff]
  exact onRings

/-- Nothing is left out for want of a place. -/
theorem drawn_place :
    drawn (build s) (place (build s) c) =
      connections (build s) (ringToolIds (build s) c.includeOrphans) := by
  rw [drawn, map_id_tools_place, List.filter_eq_self]
  intro connection member
  obtain ⟨source, target⟩ := onRings_of_mem_connections member
  rw [Bool.and_eq_true]
  exact ⟨isSome_point?_of_onRings nodup c source, isSome_point?_of_onRings nodup c target⟩

theorem exists_bundledPath_eq_ok {connection : Connection}
    (member : connection ∈ connections (build s) (ringToolIds (build s) c.includeOrphans))
    (tension : α) (id : String) :
    ∃ path, bundledPath (build s) (place (build s) c) tension id connection = .ok path := by
  obtain ⟨source, target⟩ := onRings_of_mem_connections member
  obtain ⟨points, found⟩ := exists_route_eq_ok nodup
    (fun id active => isSome_point?_of_onRings nodup c (Or.inl active))
    (isSome_point?_of_onRings nodup c source) (isSome_point?_of_onRings nodup c target)
  refine ⟨{ id := id, connection := connection, points := straighten tension points }, ?_⟩
  rw [bundledPath, found]
  rfl

/-- All connections get a path, and the ids are the plain ones with repeated ones numbered. -/
theorem exists_bundle_eq_ok (tension : α) :
    ∃ paths, bundle (build s) (place (build s) c) tension = .ok paths ∧
      paths.map BundledPath.connection =
        connections (build s) (ringToolIds (build s) c.includeOrphans) ∧
      paths.map BundledPath.id = numberRepeats [] (plainIds (build s) c.includeOrphans) := by
  have lengths : (numberRepeats [] (plainIds (build s) c.includeOrphans)).length =
      (connections (build s) (ringToolIds (build s) c.includeOrphans)).length := by
    rw [length_numberRepeats, plainIds, List.length_map]
  have each : ∀ pair ∈ (numberRepeats [] (plainIds (build s) c.includeOrphans)).zip
      (connections (build s) (ringToolIds (build s) c.includeOrphans)),
      ∃ path, bundledPath (build s) (place (build s) c) tension pair.1 pair.2 = .ok path :=
    fun pair member => exists_bundledPath_eq_ok nodup c (List.of_mem_zip member).2 tension pair.1
  obtain ⟨paths, run⟩ := exists_mapM_eq_ok each
  refine ⟨paths, ?_, ?_, ?_⟩
  · rw [bundle, drawn_place nodup c]
    exact run
  · rw [map_eq_of_mapM_eq_ok run fun _ _ made => (of_bundledPath made).2]
    exact List.map_snd_zip (Nat.le_of_eq lengths.symm)
  · rw [map_eq_of_mapM_eq_ok run fun _ _ made => (of_bundledPath made).1]
    exact List.map_fst_zip (Nat.le_of_eq lengths)

theorem exists_radialLayout_eq_ok :
    ∃ layout, radialLayout (build s) c = .ok layout ∧ layout.rings = place (build s) c := by
  obtain ⟨paths, run, -⟩ := exists_bundle_eq_ok nodup c (clampTension c.style.tension)
  refine ⟨{ rings := place (build s) c, paths := paths, tension := clampTension c.style.tension },
    ?_, rfl⟩
  rw [radialLayout, layoutAt, run]
  rfl

omit nodup in
/-- Whatever the configuration and the tension, all connections get a path, and the paths have
distinct ids exactly when no repeated plain id becomes another plain one with its number. -/
theorem nodup_bundle_iff (accepted : Snapshot.ofPayload payload = .ok s) (tension : α) :
    ∃ paths, bundle (build s) (place (build s) c) tension = .ok paths ∧
      paths.map BundledPath.connection =
        connections (build s) (ringToolIds (build s) c.includeOrphans) ∧
      ((paths.map BundledPath.id).Nodup ↔
        ∀ id number, 0 < number → number < (plainIds (build s) c.includeOrphans).count id →
          numbered id number ∉ plainIds (build s) c.includeOrphans) := by
  obtain ⟨paths, run, drawn, ids⟩ := exists_bundle_eq_ok (nodup_activeIds accepted) c tension
  refine ⟨paths, run, drawn, ?_⟩
  rw [ids]
  exact nodup_numberRepeats_iff _

end Place

theorem nodup_bundle_iff_of_circle :
    Snapshot.ofPayload circlePayload = .ok circleSnapshot ∧
    ∃ paths, bundle (build circleSnapshot)
        (place (build circleSnapshot) (canvasConfig (800 : Float) 600 none)) 0.85 = .ok paths ∧
      paths.map (fun path => (path.connection.source, path.connection.target)) =
        [("a", "b"), ("b", "a"), ("b", "c")] ∧
      (paths.map BundledPath.id).Nodup := by
  obtain ⟨paths, run, drawn, distinct⟩ :=
    nodup_bundle_iff (canvasConfig (800 : Float) 600 none) accepted_circlePayload 0.85
  have plain : plainIds (build circleSnapshot) false = ["cap-a-b", "cap-b-a", "cap-b-c"] := by
    decide +kernel
  refine ⟨accepted_circlePayload, paths, run, ?_, distinct.mpr ?_⟩
  · have ends := congrArg (List.map fun c => (c.source, c.target)) drawn
    rw [List.map_map] at ends
    exact ends.trans (by decide +kernel)
  · intro id number positive repeated
    change number < (plainIds (build circleSnapshot) false).count id at repeated
    have once := List.nodup_iff_count_le_one.mp
      (by decide : ["cap-a-b", "cap-b-a", "cap-b-c"].Nodup) id
    rw [plain] at repeated
    omega

/-- Three capabilities, the first of which leads to the second twice and to the third once, where
the id of the third is that of the second with a number. -/
def numberedPayload : Payload :=
  .record [
    ("nodes", .list (["a", "b", "b-1"].map (fun id =>
      .record [("id", .text id), ("type", .text "capability"), ("usage_count", .int 1)]))),
    ("edges", .list (
      [("a", "b", "dependency"), ("a", "b", "sequence"), ("a", "b-1", "dependency")].map (fun e =>
        .record [("source", .text e.1), ("target", .text e.2.1), ("edge_type", .text e.2.2)])))]

theorem not_nodup_bundle :
    ∃ s paths, Snapshot.ofPayload numberedPayload = .ok s ∧
      bundle (build s) (place (build s) (canvasConfig (800 : Float) 600 none)) 0.85 = .ok paths ∧
      paths.map BundledPath.id = ["cap-a-b", "cap-a-b-1", "cap-a-b-1"] ∧
      ¬ (paths.map BundledPath.id).Nodup := by
  obtain ⟨s, accepted⟩ : ∃ s, Snapshot.ofPayload numberedPayload = .ok s := ⟨_, rfl⟩
  obtain ⟨paths, run, -, ids⟩ := exists_bundle_eq_ok (nodup_activeIds accepted)
    (canvasConfig (800 : Float) 600 none) 0.85
  obtain rfl := Except.ok.inj accepted
  have ids' : paths.map BundledPath.id = ["cap-a-b", "cap-a-b-1", "cap-a-b-1"] :=
    ids.trans (by decide +kernel)
  refine ⟨_, paths, rfl, run, ids', ?_⟩
  rw [ids']
  decide

end CapabilityAtlas.Layout
