import CapabilityAtlas.Proofs.Hierarchy.Cut
import CapabilityAtlas.Proofs.Hierarchy.Nesting

set_option autoImplicit false
set_option relaxedAutoImplicit false

/-!
The levels of a forest. The recursion follows the links before circles are cut; it meets an id again
below itself only where it entered a circle at its first member, which is where the circle is cut.
What has been computed is settled: it agrees with the forest, and nothing below it is missing.
-/

namespace CapabilityAtlas.Hierarchy

variable {nesting : Nesting} {up tree : String → Option String} {order free : List String}
  {known later : Keyed Nat} {id : String}

/-- Children given by links, and the forest that remains of the links. -/
structure Nested (nesting : Nesting) (up : String → Option String) (order : List String)
    (tree : String → Option String) : Prop where
  forest : IsForestOf up order tree
  listed : ∀ c p, up c = some p → c ∈ order
  children : ∀ id kid, kid ∈ childrenOf nesting id ↔ up kid = some id

private theorem Nested.mem_inner_of_first (nested : Nested nesting up order tree) {c : String}
    (first : FirstOnCircle up order c) : c ∈ inner nesting := by
  obtain ⟨kid, linked, -⟩ := first.1.exists_below
  exact mem_inner_iff.mpr (List.ne_nil_of_mem ((nested.children c kid).mpr linked))

/-- The level at which a child counts: its own if it hangs below the id, else one. -/
def countedLevel (tree : String → Option String) (known : Keyed Nat) (id kid : String) : Nat :=
  if tree kid = some id then (known.get? kid).getD 1 else 1

def levelAbove (nesting : Nesting) (tree : String → Option String) (known : Keyed Nat)
    (id : String) : Nat :=
  ((childrenOf nesting id).map (countedLevel tree known id)).foldr max 0 + 1

def KidsKnown (nesting : Nesting) (tree : String → Option String) (known : Keyed Nat)
    (id : String) : Prop :=
  ∀ kid ∈ childrenOf nesting id, tree kid = some id → ∃ below, known.get? kid = some below

/-- Known levels that agree with a forest, and with which the levels below are known too. -/
structure Settled (nesting : Nesting) (tree : String → Option String) (known : Keyed Nat) :
    Prop where
  nodup : known.keys.Nodup
  closed : ∀ id level, known.get? id = some level → KidsKnown nesting tree known id
  level : ∀ id level, known.get? id = some level → level = levelAbove nesting tree known id

/-- Whether everything that is known stays so. -/
def Extends (known later : Keyed Nat) : Prop :=
  ∀ id level, known.get? id = some level → later.get? id = some level

/-- Whether everything that becomes known lies at least some steps below an id. -/
def NewBelow (tree : String → Option String) (steps : Nat) (id : String)
    (known later : Keyed Nat) : Prop :=
  ∀ x level, later.get? x = some level →
    known.get? x = some level ∨ ∃ n, ascend tree (n + steps) x = some id

private theorem Extends.refl (known : Keyed Nat) : Extends known known := fun _ _ h => h

private theorem Extends.trans {latest : Keyed Nat} (first : Extends known later)
    (second : Extends later latest) : Extends known latest :=
  fun id level h => second id level (first id level h)

private theorem extends_put (new : known.get? id = none) (level : Nat) :
    Extends known (known.put id level) := by
  intro x below h
  have other : x ≠ id := by
    rintro rfl
    rw [new] at h
    simp at h
  rw [Keyed.get?_put_of_ne known level other]
  exact h

private theorem countedLevel_congr (grows : Extends known later) {kid : String}
    (held : tree kid = some id → ∃ below, known.get? kid = some below) :
    countedLevel tree later id kid = countedLevel tree known id kid := by
  unfold countedLevel
  split
  · rename_i hangs
    obtain ⟨below, found⟩ := held hangs
    rw [found, grows kid below found]
  · rfl

private theorem levelAbove_congr (grows : Extends known later)
    (held : KidsKnown nesting tree known id) :
    levelAbove nesting tree later id = levelAbove nesting tree known id := by
  unfold levelAbove
  rw [List.map_congr_left fun kid hk => countedLevel_congr grows (held kid hk)]

namespace Settled

private theorem nil : Settled nesting tree [] :=
  ⟨List.nodup_nil, by simp [Keyed.get?], by simp [Keyed.get?]⟩

private theorem put (settled : Settled nesting tree known) (new : known.get? id = none)
    (held : KidsKnown nesting tree known id) :
    Settled nesting tree (known.put id (levelAbove nesting tree known id)) := by
  have grows := extends_put new (levelAbove nesting tree known id)
  have before : ∀ x level, (known.put id (levelAbove nesting tree known id)).get? x = some level →
      KidsKnown nesting tree known x ∧ level = levelAbove nesting tree known x := by
    intro x level found
    rw [Keyed.get?_put] at found
    split at found
    · rename_i same
      subst same
      exact ⟨held, (Option.some.inj found).symm⟩
    · exact ⟨settled.closed x level found, settled.level x level found⟩
  refine ⟨Keyed.nodup_keys_put settled.nodup id _, ?_, ?_⟩
  · intro x level found kid hk hangs
    obtain ⟨below, h⟩ := (before x level found).1 kid hk hangs
    exact ⟨below, grows kid below h⟩
  · intro x level found
    obtain ⟨kids, same⟩ := before x level found
    rw [levelAbove_congr grows kids]
    exact same

private theorem exists_of_ascend (settled : Settled nesting tree known)
    (nested : Nested nesting up order tree) {n : Nat} {x : String}
    (reach : ascend tree n x = some id) {level : Nat} (found : known.get? id = some level) :
    ∃ below, known.get? x = some below := by
  induction n generalizing x with
  | zero =>
    obtain rfl : x = id := by simpa [ascend] using reach
    exact ⟨level, found⟩
  | succ n ih =>
    cases linked : tree x with
    | none =>
      rw [ascend_of_eq_none linked] at reach
      simp at reach
    | some p =>
      rw [ascend_of_eq_some linked] at reach
      obtain ⟨above, hp⟩ := ih reach
      have member := (nested.children p x).mpr (nested.forest.up_eq_some linked)
      exact settled.closed p above hp x member linked

end Settled

/-- The state in which the levels below an id are computed: the ids with children that are not free
lie above it, and children that were cut loose below it lie on the path and are not known. -/
structure Inside (nesting : Nesting) (up tree : String → Option String) (free : List String)
    (known : Keyed Nat) (id : String) : Prop where
  nodup : free.Nodup
  path : ∀ x ∈ inner nesting, x ∉ free → ∃ m, ascend tree m id = some x
  clear : ∀ d m k, ascend tree m d = some id → up k = some d → tree k = none →
    k ∉ free ∧ known.get? k = none
  settled : Settled nesting tree known

/-- The state in which an id is entered from above, or at the top. -/
structure Entered (nesting : Nesting) (up tree : String → Option String) (free : List String)
    (known : Keyed Nat) (id : String) : Prop where
  nodup : free.Nodup
  path : ∀ x ∈ inner nesting, x ∉ free → ∃ m, ascend tree (m + 1) id = some x
  clear : ∀ d m k, ascend tree m d = some id → up k = some d → tree k = none →
    (k ∉ free ∨ k = id) ∧ known.get? k = none
  settled : Settled nesting tree known

/-- What the computation of the level of an id gives. -/
structure Returned (nesting : Nesting) (tree : String → Option String) (known : Keyed Nat)
    (id : String) (answer : Nat × Keyed Nat) : Prop where
  found : answer.2.get? id = some answer.1
  grows : Extends known answer.2
  settled : Settled nesting tree answer.2
  below : NewBelow tree 0 id known answer.2

private theorem Entered.inside (entered : Entered nesting up tree free known id) :
    Inside nesting up tree (free.erase id) known id := by
  refine ⟨entered.nodup.erase id, ?_, ?_, entered.settled⟩
  · intro x hx out
    by_cases same : x = id
    · exact ⟨0, by rw [same]; rfl⟩
    · have out' : x ∉ free := fun h => out ((List.mem_erase_of_ne same).mpr h)
      obtain ⟨m, reach⟩ := entered.path x hx out'
      exact ⟨m + 1, reach⟩
  · intro d m k reach linked loose
    obtain ⟨out, new⟩ := entered.clear d m k reach linked loose
    refine ⟨?_, new⟩
    rcases out with out | rfl
    · exact fun h => out (List.mem_of_mem_erase h)
    · exact entered.nodup.not_mem_erase

private theorem Inside.entered (inside : Inside nesting up tree free known id) {kid : String}
    (hangs : tree kid = some id) : Entered nesting up tree free known kid := by
  refine ⟨inside.nodup, ?_, ?_, inside.settled⟩
  · intro x hx out
    obtain ⟨m, reach⟩ := inside.path x hx out
    exact ⟨m, by rwa [ascend_of_eq_some hangs]⟩
  · intro d m k reach linked loose
    have higher : ascend tree (m + 1) d = some id := by
      rw [ascend_succ_last, reach]
      exact hangs
    obtain ⟨out, new⟩ := inside.clear d (m + 1) k higher linked loose
    exact ⟨Or.inl out, new⟩

private theorem Inside.step (inside : Inside nesting up tree free known id) {kid : String}
    (hangs : tree kid = some id) {answer : Nat × Keyed Nat}
    (returned : Returned nesting tree known kid answer) :
    Inside nesting up tree free answer.2 id := by
  refine ⟨inside.nodup, inside.path, ?_, returned.settled⟩
  intro d m k reach linked loose
  obtain ⟨out, new⟩ := inside.clear d m k reach linked loose
  refine ⟨out, ?_⟩
  -- What has become known hangs below the child, and a loose id hangs below nothing.
  cases found : answer.2.get? k with
  | none => rfl
  | some level =>
    exfalso
    rcases returned.below k level found with before | ⟨n, climbs⟩
    · rw [new] at before
      simp at before
    · cases n with
      | zero =>
        obtain rfl : k = kid := by simpa [ascend] using climbs
        rw [loose] at hangs
        simp at hangs
      | succ n =>
        rw [Nat.add_zero, ascend_of_eq_none loose] at climbs
        simp at climbs

structure Gathered (nesting : Nesting) (tree : String → Option String) (known : Keyed Nat)
    (id : String) (kids : List String) (answer : Nat × Keyed Nat) : Prop where
  found : ∀ kid ∈ kids, tree kid = some id → ∃ below, answer.2.get? kid = some below
  highest : answer.1 = (kids.map (countedLevel tree answer.2 id)).foldr max 0
  grows : Extends known answer.2
  settled : Settled nesting tree answer.2
  below : NewBelow tree 1 id known answer.2

private theorem levelOf_loose (nested : Nested nesting up order tree)
    (inside : Inside nesting up tree free known id) {kid : String} (linked : up kid = some id)
    (loose : tree kid = none) : levelOf nesting free known kid = (1, known) := by
  obtain ⟨out, new⟩ := inside.clear id 0 kid rfl linked loose
  have first := nested.forest.firstOnCircle_of_loose linked loose
  have fertile := mem_inner_iff.mp (nested.mem_inner_of_first first)
  rw [levelOf]
  simp only [new, if_neg out, List.isEmpty_iff, if_neg fertile]

private theorem gathered_highest (nested : Nested nesting up order tree)
    (enter : ∀ known kid, Entered nesting up tree free known kid →
      Returned nesting tree known kid (levelOf nesting free known kid))
    (kids : List String) (linked : ∀ kid ∈ kids, up kid = some id)
    (inside : Inside nesting up tree free known id) :
    Gathered nesting tree known id kids (highest nesting free known kids) := by
  induction kids generalizing known with
  | nil =>
    rw [highest]
    exact ⟨by simp, rfl, Extends.refl known, inside.settled, fun _ _ h => Or.inl h⟩
  | cons kid rest ih =>
    have linked' : ∀ k ∈ rest, up k = some id := fun k hk => linked k (List.mem_cons_of_mem _ hk)
    have above := linked kid List.mem_cons_self
    rw [highest]
    cases hangs : tree kid with
    | none =>
      -- A loose child is met on the path to itself and changes nothing.
      rw [levelOf_loose nested inside above hangs]
      have later := ih linked' inside
      refine ⟨?_, ?_, later.grows, later.settled, later.below⟩
      · intro k hk link
        rcases List.mem_cons.mp hk with rfl | hk
        · rw [hangs] at link
          simp at link
        · exact later.found k hk link
      · have one : countedLevel tree (highest nesting free known rest).2 id kid = 1 := by
          simp [countedLevel, hangs]
        rw [List.map_cons, List.foldr_cons, one, ← later.highest]
    | some p =>
      obtain rfl : p = id := Option.some.inj ((nested.forest.up_eq_some hangs).symm.trans above)
      have returned := enter known kid (inside.entered hangs)
      have later := ih linked' (inside.step hangs returned)
      have held := later.grows kid _ returned.found
      refine ⟨?_, ?_, returned.grows.trans later.grows, later.settled, ?_⟩
      · intro k hk link
        rcases List.mem_cons.mp hk with rfl | hk
        · exact ⟨_, held⟩
        · exact later.found k hk link
      · have own : countedLevel tree (highest nesting free
            (levelOf nesting free known kid).2 rest).2 p kid =
              (levelOf nesting free known kid).1 := by
          simp [countedLevel, hangs, held]
        rw [List.map_cons, List.foldr_cons, own, ← later.highest]
      · intro x level found
        rcases later.below x level found with before | lower
        · rcases returned.below x level before with known | ⟨n, climbs⟩
          · exact Or.inl known
          · refine Or.inr ⟨n, ?_⟩
            change ascend tree n x = some kid at climbs
            rw [ascend_succ_last, climbs]
            exact hangs
        · exact Or.inr lower

private theorem returned_put (nested : Nested nesting up order tree) (new : known.get? id = none)
    (grows : Extends known later) (settled : Settled nesting tree later)
    (held : KidsKnown nesting tree later id) (below : NewBelow tree 1 id known later) {level : Nat}
    (above : level = levelAbove nesting tree later id) :
    Returned nesting tree known id (level, later.put id level) := by
  have unseen : later.get? id = none := by
    cases found : later.get? id with
    | none => rfl
    | some level =>
      exfalso
      rcases below id level found with before | circle
      · rw [new] at before
        simp at before
      · exact OnCircle.not_grounded circle (nested.forest.grounded id)
  have settled' := settled.put unseen held
  rw [← above] at settled'
  refine ⟨Keyed.get?_put_self _ _ _, grows.trans (extends_put unseen _), settled', ?_⟩
  intro x value found
  rw [Keyed.get?_put] at found
  split at found
  · rename_i same
    exact Or.inr ⟨0, by rw [same]; rfl⟩
  · rcases below x value found with before | ⟨m, climbs⟩
    · exact Or.inl before
    · exact Or.inr ⟨m + 1, climbs⟩

/-- An id that is entered becomes known at the level that its children give it. -/
theorem returned_levelOf (nested : Nested nesting up order tree)
    (entered : Entered nesting up tree free known id) :
    Returned nesting tree known id (levelOf nesting free known id) := by
  -- The ids that are free become fewer from an id to its children.
  induction size : free.length using Nat.strongRecOn generalizing free known id with
  | ind n ih =>
    rw [levelOf]
    cases new : known.get? id with
    | some level =>
      exact ⟨new, Extends.refl known, entered.settled, fun _ _ h => Or.inl h⟩
    | none =>
      by_cases member : id ∈ free
      · have fewer : (free.erase id).length < n := by
          have := List.length_erase_of_mem member
          have := List.length_pos_of_mem member
          omega
        have gathered := gathered_highest nested
          (fun known kid entered => ih _ fewer entered rfl) (childrenOf nesting id)
          (fun kid hk => (nested.children id kid).mp hk) entered.inside
        simp only [if_pos member]
        refine returned_put nested new gathered.grows gathered.settled gathered.found
          gathered.below ?_
        rw [levelAbove, ← gathered.highest]
      · -- An id that is not free is on the path to itself, unless nothing lies below it.
        have leaf : childrenOf nesting id = [] := by
          by_contra some
          obtain ⟨m, climbs⟩ := entered.path id (mem_inner_iff.mpr some) member
          exact OnCircle.not_grounded ⟨m, climbs⟩ (nested.forest.grounded id)
        have held : KidsKnown nesting tree known id := by
          intro kid hk
          rw [leaf] at hk
          simp at hk
        simp only [if_neg member, leaf, List.isEmpty_nil, if_true]
        refine returned_put nested new (Extends.refl known) entered.settled held
          (fun _ _ h => Or.inl h) ?_
        simp [levelAbove, leaf]

/-- The state after some of the ids have been gone through. -/
structure LevelsUpTo (nesting : Nesting) (tree : String → Option String)
    (order before : List String) (known : Keyed Nat) : Prop where
  settled : Settled nesting tree known
  found : ∀ id ∈ before, ∃ level, known.get? id = some level
  listed : ∀ id level, known.get? id = some level → id ∈ order

/-- An unknown member of a circle comes first on it: from any other one the climb leads to the first
member, which has been gone through before. -/
private theorem LevelsUpTo.eq_of_loose {before after : List String}
    (upTo : LevelsUpTo nesting tree order before known) (nested : Nested nesting up order tree)
    (split : order = before ++ id :: after) (new : known.get? id = none) {d k : String} {m : Nat}
    (reach : ascend tree m d = some id) (linked : up k = some d) (loose : tree k = none) :
    k = id := by
  have first := nested.forest.firstOnCircle_of_loose linked loose
  have toId : ascend up (m + 1) k = some id := by
    rw [ascend_of_eq_some linked]
    exact nested.forest.ascend_up reach
  obtain ⟨n, top, climb, alsoFirst⟩ := nested.forest.exists_first (first.1.of_ascend toId)
  have toTop := ascend_trans toId (nested.forest.ascend_up climb)
  obtain rfl := first.eq alsoFirst toTop (nested.listed k d linked)
  by_contra other
  -- The first member has been gone through, so that everything below it is known.
  have earlier : k ∈ before := by
    by_contra later
    have place := first.2 _ id toId
    rw [split, List.idxOf_append_of_notMem later,
      List.idxOf_cons_ne _ (fun same => other same.symm)] at place
    have bound : (before ++ id :: after).idxOf id ≤ before.length := by
      by_cases twice : id ∈ before
      · rw [List.idxOf_append_of_mem twice]
        exact List.idxOf_le_length
      · rw [List.idxOf_append_of_notMem twice, List.idxOf_cons_self]
        exact Nat.le_refl _
    omega
  obtain ⟨level, found⟩ := upTo.found k earlier
  obtain ⟨below, found⟩ := upTo.settled.exists_of_ascend nested climb found
  rw [new] at found
  simp at found

private theorem LevelsUpTo.step {before after : List String}
    (upTo : LevelsUpTo nesting tree order before known) (nested : Nested nesting up order tree)
    (nodup : (inner nesting).Nodup) (split : order = before ++ id :: after) :
    LevelsUpTo nesting tree order (before ++ [id])
      (levelOf nesting (inner nesting) known id).2 := by
  have member : id ∈ order := by simp [split]
  have returned : Returned nesting tree known id (levelOf nesting (inner nesting) known id) := by
    cases new : known.get? id with
    | some level =>
      rw [levelOf, new]
      exact ⟨new, Extends.refl known, upTo.settled, fun _ _ h => Or.inl h⟩
    | none =>
      refine returned_levelOf nested ⟨nodup, ?_, ?_, upTo.settled⟩
      · exact fun x hx out => (out hx).elim
      · intro d m k reach linked loose
        obtain rfl := upTo.eq_of_loose nested split new reach linked loose
        exact ⟨Or.inr rfl, new⟩
  refine ⟨returned.settled, ?_, ?_⟩
  · intro x hx
    rcases List.mem_append.mp hx with hx | hx
    · obtain ⟨level, found⟩ := upTo.found x hx
      exact ⟨level, returned.grows x level found⟩
    · obtain rfl := List.mem_singleton.mp hx
      exact ⟨_, returned.found⟩
  · intro x level found
    rcases returned.below x level found with before | ⟨n, climbs⟩
    · exact upTo.listed x level before
    · cases linked : tree x with
      | some p => exact nested.listed x p (nested.forest.up_eq_some linked)
      | none =>
        cases n with
        | zero =>
          obtain rfl : x = id := by simpa [ascend] using climbs
          exact member
        | succ n =>
          rw [Nat.add_zero, ascend_of_eq_none linked] at climbs
          simp at climbs

/-- The table holds exactly the given ids, each at the level that its children give it. -/
theorem levelsUpTo_levelTable (nested : Nested nesting up order tree)
    (nodup : (inner nesting).Nodup) :
    LevelsUpTo nesting tree order order (levelTable nesting order) := by
  have run : ∀ after before known, order = before ++ after →
      LevelsUpTo nesting tree order before known → LevelsUpTo nesting tree order order
        (after.foldl (fun known id => (levelOf nesting (inner nesting) known id).2) known) := by
    intro after
    induction after with
    | nil =>
      intro before known split upTo
      rw [List.append_nil] at split
      rwa [← split] at upTo
    | cons id rest ih =>
      intro before known split upTo
      refine ih (before ++ [id]) _ ?_ (upTo.step nested nodup split)
      rw [split, List.append_assoc]
      rfl
  exact run order [] [] rfl ⟨Settled.nil, by simp, by simp [Keyed.get?]⟩

end CapabilityAtlas.Hierarchy
