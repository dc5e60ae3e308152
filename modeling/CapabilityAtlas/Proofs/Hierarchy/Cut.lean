import CapabilityAtlas.Proofs.Hierarchy.Ascent
import CapabilityAtlas.Proofs.Keyed
import Mathlib.Data.List.Chain

set_option autoImplicit false
set_option relaxedAutoImplicit false

/-!
The search for a circle above an id finds one exactly when the climb from the id does not end, and
then lists the members of that circle.
-/

namespace CapabilityAtlas.Hierarchy

variable {up : String → Option String}

/-- Ids each of which is followed by the next one above it. -/
abbrev Trail (up : String → Option String) : List String → Prop :=
  List.IsChain (fun a b => up a = some b)

/-- Whether a list holds the members of the circle on which an id lies. -/
structure Encircles (up : String → Option String) (circle : List String) (c : String) : Prop where
  onCircle : OnCircle up c
  mem_iff : ∀ d, d ∈ circle ↔ ∃ m, ascend up m c = some d

private theorem ascend_trail {a b : String} {between : List String}
    (trail : Trail up (a :: (between ++ [b]))) :
    ascend up (between.length + 1) a = some b := by
  induction between generalizing a with
  | nil =>
    have step : up a = some b := (List.isChain_cons_cons.mp trail).1
    rw [ascend_of_eq_some step]
    rfl
  | cons c rest ih =>
    obtain ⟨step, later⟩ := List.isChain_cons_cons.mp trail
    rw [ascend_of_eq_some step]
    exact ih later

private theorem ascend_mem_trail {c d : String} {rest : List String} (trail : Trail up (c :: rest))
    (member : d ∈ c :: rest) : ∃ m, ascend up m c = some d := by
  rcases List.mem_cons.mp member with rfl | member
  · exact ⟨0, rfl⟩
  · obtain ⟨before, after, rfl⟩ := List.append_of_mem member
    rw [← List.cons_append] at trail
    have first : Trail up (c :: before ++ [d]) := (List.isChain_split.mp trail).1
    exact ⟨_, ascend_trail first⟩

private theorem next_mem_of_trail {chain : List String} {last e : String}
    (trail : Trail up (chain ++ [last])) (member : e ∈ chain) :
    ∃ d ∈ chain ++ [last], up e = some d := by
  obtain ⟨before, after, rfl⟩ := List.append_of_mem member
  rw [List.append_assoc, List.cons_append] at trail
  have rest : Trail up (e :: (after ++ [last])) := trail.right_of_append
  cases after with
  | nil => exact ⟨last, by simp, (List.isChain_cons_cons.mp rest).1⟩
  | cons d later => exact ⟨d, by simp, (List.isChain_cons_cons.mp rest).1⟩

private theorem encircles_of_trail {c : String} {rest : List String}
    (trail : Trail up (c :: rest ++ [c])) : Encircles up (c :: rest) c := by
  refine ⟨⟨rest.length, ascend_trail trail⟩, fun d => ⟨ascend_mem_trail trail.left_of_append, ?_⟩⟩
  rintro ⟨m, hm⟩
  induction m generalizing d with
  | zero =>
    obtain rfl : c = d := by simpa [ascend] using hm
    exact List.mem_cons_self
  | succ m ih =>
    rw [ascend_succ_last] at hm
    obtain ⟨e, he, step⟩ := Option.bind_eq_some_iff.mp hm
    obtain ⟨next, member, found⟩ := next_mem_of_trail trail (ih e he)
    obtain rfl : d = next := Option.some.inj (step.symm.trans found)
    rcases List.mem_append.mp member with member | member
    · exact member
    · obtain rfl := List.mem_singleton.mp member
      exact List.mem_cons_self

private theorem dropWhile_ne_of_mem {chain : List String} {id : String} (member : id ∈ chain) :
    ∃ before rest, chain = before ++ id :: rest ∧
      chain.dropWhile (fun x => x ≠ id) = id :: rest := by
  obtain ⟨before, rest, rfl, fresh⟩ := List.eq_append_cons_of_mem member
  refine ⟨before, rest, rfl, ?_⟩
  rw [List.dropWhile_append_of_pos, List.dropWhile_cons_of_neg (by simp)]
  intro x hx
  have hne : x ≠ id := by
    rintro rfl
    exact fresh hx
  simpa using hne

/-- What a search with some ids passed gives. The links of passed ids are gone, but they are not
looked at again before the search ends. -/
theorem circleAbove_spec {links : Keyed String} {chain : List String} {id : String}
    (agree : ∀ x, x ∉ chain → links.get? x = up x) (trail : Trail up (chain ++ [id])) :
    (circleAbove links chain id = none → Grounded up id) ∧
      ∀ circle, circleAbove links chain id = some circle →
        ∃ n c, ascend up n id = some c ∧ Encircles up circle c := by
  induction links, chain, id using circleAbove.induct with
  | case1 links chain id known =>
    have member : id ∈ chain := List.contains_iff_mem.mp known
    obtain ⟨before, rest, split, drop⟩ := dropWhile_ne_of_mem member
    rw [circleAbove, if_pos known]
    refine ⟨by simp, ?_⟩
    rintro circle ⟨⟩
    refine ⟨0, id, rfl, ?_⟩
    rw [drop]
    rw [split, List.append_assoc] at trail
    exact encircles_of_trail trail.right_of_append
  | case2 links chain id unknown ended =>
    rw [circleAbove, if_neg unknown]
    split
    · rename_i found
      have fresh : id ∉ chain := fun member => unknown (List.contains_iff_mem.mpr member)
      exact ⟨fun _ => grounded_of_eq_none ((agree id fresh).symm.trans found), by simp⟩
    · rename_i found
      rw [ended] at found
      simp at found
  | case3 links chain id unknown parent linked ih =>
    have fresh : id ∉ chain := fun member => unknown (List.contains_iff_mem.mpr member)
    have step : up id = some parent := (agree id fresh).symm.trans linked
    have agree' : ∀ x, x ∉ chain ++ [id] → (links.erase id).get? x = up x := by
      intro x hx
      simp only [List.mem_append, List.mem_singleton, not_or] at hx
      rw [Keyed.get?_erase_of_ne links hx.2]
      exact agree x hx.1
    have trail' : Trail up (chain ++ [id] ++ [parent]) := by
      rw [List.append_assoc]
      exact List.isChain_split.mpr ⟨trail, List.isChain_pair.mpr step⟩
    obtain ⟨ends, comes⟩ := ih agree' trail'
    have unfolded : circleAbove links chain id =
        circleAbove (links.erase id) (chain ++ [id]) parent := by
      rw [circleAbove, if_neg unknown]
      split
      · rename_i found
        rw [linked] at found
        simp at found
      · rename_i other found
        obtain rfl : parent = other := Option.some.inj (linked.symm.trans found)
        rfl
    rw [unfolded]
    refine ⟨fun free => (grounded_iff_of_eq_some step).mpr (ends free), ?_⟩
    intro circle found
    obtain ⟨n, c, reached, around⟩ := comes circle found
    exact ⟨n + 1, c, by rwa [ascend_of_eq_some step], around⟩

private theorem grounded_of_circleAbove_eq_none {links : Keyed String} {id : String}
    (h : circleAbove links [] id = none) : Grounded links.get? id :=
  (circleAbove_spec (fun _ _ => rfl) (List.isChain_singleton id)).1 h

private theorem encircles_of_circleAbove {links : Keyed String} {id : String} {circle : List String}
    (h : circleAbove links [] id = some circle) :
    ∃ n c, ascend links.get? n id = some c ∧ Encircles links.get? circle c :=
  (circleAbove_spec (fun _ _ => rfl) (List.isChain_singleton id)).2 circle h

end CapabilityAtlas.Hierarchy

/-!
Cutting circles. While the ids are gone through in order, every link is either the original one or
has been dropped at the first member of a circle, and no climb from an id that has been passed runs
into a circle any more. In the end exactly the first member of each circle has lost its link.
-/

namespace CapabilityAtlas.Hierarchy

variable {up tree : String → Option String} {order : List String}

/-- Whether an id lies on a circle and no member of that circle stands before it in the order. -/
def FirstOnCircle (up : String → Option String) (order : List String) (c : String) : Prop :=
  OnCircle up c ∧ ∀ n d, ascend up n c = some d → order.idxOf c ≤ order.idxOf d

/-- Links of which some may have been dropped, each at the first member of a circle. -/
def PartlyCut (up : String → Option String) (order : List String)
    (part : String → Option String) : Prop :=
  ∀ c, part c = up c ∨ part c = none ∧ FirstOnCircle up order c

/-- Links without circles, from which only those of the first members of circles are missing. -/
structure IsForestOf (up : String → Option String) (order : List String)
    (tree : String → Option String) : Prop where
  first : ∀ c, FirstOnCircle up order c → tree c = none
  other : ∀ c, ¬ FirstOnCircle up order c → tree c = up c
  grounded : ∀ c, Grounded tree c

namespace IsForestOf

theorem up_eq_some (forest : IsForestOf up order tree) {c p : String} (h : tree c = some p) :
    up c = some p := by
  rw [← forest.other c]
  · exact h
  · intro first
    rw [forest.first c first] at h
    simp at h

theorem ascend_up (forest : IsForestOf up order tree) {n : Nat} {c d : String}
    (h : ascend tree n c = some d) : ascend up n c = some d := by
  induction n generalizing c with
  | zero => exact h
  | succ n ih =>
    cases linked : tree c with
    | none =>
      rw [ascend_of_eq_none linked] at h
      simp at h
    | some p =>
      rw [ascend_of_eq_some linked] at h
      rw [ascend_of_eq_some (forest.up_eq_some linked)]
      exact ih h

theorem firstOnCircle_of_loose (forest : IsForestOf up order tree) {c p : String}
    (linked : up c = some p) (loose : tree c = none) : FirstOnCircle up order c := by
  by_contra notFirst
  rw [forest.other c notFirst, linked] at loose
  simp at loose

/-- From every member of a circle the climb in the forest ends at a first member. -/
theorem exists_first (forest : IsForestOf up order tree) {c : String} (circle : OnCircle up c) :
    ∃ n d, ascend tree n c = some d ∧ FirstOnCircle up order d := by
  obtain ⟨n, d, reach, loose⟩ := (forest.grounded c).top
  obtain ⟨p, linked⟩ := (circle.of_ascend (forest.ascend_up reach)).exists_up
  exact ⟨n, d, reach, forest.firstOnCircle_of_loose linked loose⟩

end IsForestOf

/-- Above an id that still lies on a circle no link has been dropped. -/
private theorem PartlyCut.ascend_eq {part : String → Option String}
    (partly : PartlyCut up order part)
    {c : String} (circle : OnCircle part c) (n : Nat) : ascend part n c = ascend up n c := by
  induction n generalizing c with
  | zero => rfl
  | succ n ih =>
    obtain ⟨d, step⟩ := circle.exists_up
    have original : up c = some d := by
      rcases partly c with same | ⟨dropped, -⟩
      · exact same.symm.trans step
      · rw [dropped] at step
        simp at step
    rw [ascend_of_eq_some step, ascend_of_eq_some original]
    exact ih (circle.of_ascend (n := 1) (by rw [ascend_of_eq_some step]; rfl))

private theorem PartlyCut.firstOnCircle {part : String → Option String}
    (partly : PartlyCut up order part) {c : String} (first : FirstOnCircle part order c) :
    FirstOnCircle up order c := by
  obtain ⟨circle, least⟩ := first
  have same := partly.ascend_eq circle
  refine ⟨?_, fun n d hd => least n d ((same n).trans hd)⟩
  obtain ⟨n, hn⟩ := id circle
  exact ⟨n, (same (n + 1)).symm.trans hn⟩

theorem FirstOnCircle.eq {c d : String} {n : Nat} (hc : FirstOnCircle up order c)
    (hd : FirstOnCircle up order d) (reach : ascend up n c = some d) (listed : c ∈ order) :
    c = d := by
  obtain ⟨m, back⟩ := hc.1.ascend_back reach
  have same : order.idxOf c = order.idxOf d := Nat.le_antisymm (hc.2 n d reach) (hd.2 _ c back)
  exact (List.idxOf_inj listed).mp same

private theorem PartlyCut.isForestOf {part : String → Option String}
    (partly : PartlyCut up order part)
    (listed : ∀ c p, up c = some p → c ∈ order) (grounded : ∀ c, Grounded part c) :
    IsForestOf up order part := by
  refine ⟨?_, ?_, grounded⟩
  · intro c first
    rcases partly c with kept | ⟨dropped, -⟩
    · -- A circle that has kept this link has kept all of them, since it has one first member.
      exfalso
      obtain ⟨p, linked⟩ := first.1.exists_up
      have intact : ∀ n d, ascend up n c = some d → part d = up d := by
        intro n d reach
        rcases partly d with same | ⟨-, alsoFirst⟩
        · exact same
        · obtain rfl := first.eq alsoFirst reach (listed c p linked)
          exact kept
      have same : ∀ n, ascend part n c = ascend up n c := by
        intro n
        induction n with
        | zero => rfl
        | succ n ih =>
          rw [ascend_succ_last, ascend_succ_last, ih]
          cases reach : ascend up n c with
          | none => rfl
          | some d => exact intact n d reach
      obtain ⟨n, around⟩ := first.1
      exact OnCircle.not_grounded ⟨n, (same (n + 1)).trans around⟩ (grounded c)
    · exact dropped
  · intro c notFirst
    rcases partly c with same | ⟨-, first⟩
    · exact same
    · exact (notFirst first).elim

/-- Dropping the link of an id ends every climb that comes to the id, and leaves those that end. -/
private theorem grounded_erase {links : Keyed String} {id x : String} {n : Nat}
    (h : ascend links.get? n x = none ∨ ascend links.get? n x = some id) :
    Grounded (links.erase id).get? x := by
  induction n generalizing x with
  | zero =>
    obtain rfl : x = id := by simpa [ascend] using h
    exact grounded_of_eq_none (Keyed.get?_erase_self links x)
  | succ n ih =>
    by_cases same : x = id
    · subst same
      exact grounded_of_eq_none (Keyed.get?_erase_self links x)
    · have kept := Keyed.get?_erase_of_ne links same
      cases linked : links.get? x with
      | none => exact grounded_of_eq_none (kept.trans linked)
      | some parent =>
        rw [ascend_of_eq_some linked] at h
        exact (grounded_iff_of_eq_some (kept.trans linked)).mpr (ih h)

private theorem partlyCut_erase {links : Keyed String} {id : String}
    (partly : PartlyCut up order links.get?) (first : FirstOnCircle up order id) :
    PartlyCut up order (links.erase id).get? := by
  intro c
  by_cases same : c = id
  · subst same
    exact Or.inr ⟨Keyed.get?_erase_self links c, first⟩
  · rw [Keyed.get?_erase_of_ne links same]
    exact partly c

private theorem earliest?_spec {circle : List String} (nodup : order.Nodup) {d : String}
    (listed : d ∈ order) (member : d ∈ circle) :
    ∃ c ∈ circle, earliest? circle order = some c ∧
      ∀ x ∈ circle, order.idxOf c ≤ order.idxOf x := by
  induction order with
  | nil => simp at listed
  | cons id rest ih =>
    obtain ⟨fresh, nodup⟩ := List.nodup_cons.mp nodup
    by_cases inside : id ∈ circle
    · refine ⟨id, inside, ?_, ?_⟩
      · rw [earliest?, if_pos (by simp [inside, fresh])]
      · intro x _
        rw [List.idxOf_cons_self]
        exact Nat.zero_le _
    · have listed : d ∈ rest := by
        rcases List.mem_cons.mp listed with rfl | later
        · exact (inside member).elim
        · exact later
      obtain ⟨c, hc, found, least⟩ := ih nodup listed
      refine ⟨c, hc, ?_, ?_⟩
      · rw [earliest?, if_neg (by simp [inside])]
        exact found
      · intro x hx
        have hne : ∀ y ∈ circle, id ≠ y := fun y hy same => inside (same ▸ hy)
        rw [List.idxOf_cons_ne rest (hne c hc), List.idxOf_cons_ne rest (hne x hx)]
        exact Nat.succ_le_succ (least x hx)

section Loop

variable (nodup : order.Nodup) (listed : ∀ c p, up c = some p → c ∈ order)

include nodup listed

/-- What one step of the loop does: it keeps the links partly cut, it ends the climb from the id of
the step, and it reopens no climb that has ended. -/
theorem cutAbove_spec {links : Keyed String} (partly : PartlyCut up order links.get?)
    (id : String) :
    cutAbove? order links id = .ok (cutAbove order links id) ∧
      PartlyCut up order (cutAbove order links id).get? ∧
      Grounded (cutAbove order links id).get? id ∧
      ∀ x, Grounded links.get? x → Grounded (cutAbove order links id).get? x := by
  cases found : circleAbove links [] id with
  | none =>
    have same : cutAbove order links id = links := by rw [cutAbove, found]
    rw [same]
    refine ⟨by rw [cutAbove?, found], partly, ?_, fun _ h => h⟩
    exact grounded_of_circleAbove_eq_none found
  | some circle =>
    obtain ⟨n, c, reach, around⟩ := encircles_of_circleAbove found
    have member : ∀ d ∈ circle, d ∈ order := by
      intro d hd
      obtain ⟨m, hm⟩ := (around.mem_iff d).mp hd
      have onCircle := around.onCircle.of_ascend hm
      obtain ⟨p, hp⟩ := onCircle.exists_up
      rcases partly d with same | ⟨dropped, -⟩
      · exact listed d p (same.symm.trans hp)
      · rw [dropped] at hp
        simp at hp
    have inside : c ∈ circle := (around.mem_iff c).mpr ⟨0, rfl⟩
    obtain ⟨b, hb, early, least⟩ := earliest?_spec nodup (member c inside) inside
    obtain ⟨m, toB⟩ := (around.mem_iff b).mp hb
    have first : FirstOnCircle links.get? order b := by
      refine ⟨around.onCircle.of_ascend toB, fun k d hd => least d ?_⟩
      exact (around.mem_iff d).mpr ⟨m + k, ascend_trans toB hd⟩
    have erased : cutAbove order links id = links.erase b := by
      simp only [cutAbove, found, cut, early]
    rw [erased]
    refine ⟨?_, partlyCut_erase partly (partly.firstOnCircle first), ?_, ?_⟩
    · have all : circle.all order.contains = true := by
        simpa [List.all_eq_true] using member
      simp only [cutAbove?, found, all, if_true, cut, early]
    · exact grounded_erase (Or.inr (ascend_trans reach toB))
    · rintro x ⟨k, hk⟩
      exact grounded_erase (Or.inl hk)

theorem cutAll_spec (ids : List String) {links : Keyed String}
    (partly : PartlyCut up order links.get?) :
    ids.foldlM (cutAbove? order) links = .ok (ids.foldl (cutAbove order) links) ∧
      PartlyCut up order (ids.foldl (cutAbove order) links).get? ∧
      ∀ x, (x ∈ ids ∨ Grounded links.get? x) →
        Grounded (ids.foldl (cutAbove order) links).get? x := by
  induction ids generalizing links with
  | nil => exact ⟨rfl, partly, by simp⟩
  | cons id rest ih =>
    obtain ⟨step, partly', ended, keeps⟩ := cutAbove_spec nodup listed partly id
    obtain ⟨run, partly'', grounded⟩ := ih partly'
    refine ⟨?_, partly'', ?_⟩
    · rw [List.foldlM_cons, step]
      exact run
    · rintro x (member | before)
      · rcases List.mem_cons.mp member with rfl | later
        · exact grounded x (Or.inr ended)
        · exact grounded x (Or.inl later)
      · exact grounded x (Or.inr (keeps x before))

end Loop

/-- The loop over all ids never misses the place of an id. -/
theorem forest?_eq_ok {links : Keyed String} (nodup : order.Nodup)
    (listed : ∀ c p, links.get? c = some p → c ∈ order) :
    forest? order links = .ok (forest order links) :=
  (cutAll_spec nodup listed order (fun _ => Or.inl rfl)).1

/-- What remains is a forest that lacks exactly the links of the first members of circles. -/
theorem isForestOf_forest {links : Keyed String} (nodup : order.Nodup)
    (listed : ∀ c p, links.get? c = some p → c ∈ order) :
    IsForestOf links.get? order (forest order links).get? := by
  obtain ⟨-, partly, grounded⟩ := cutAll_spec nodup listed order (fun _ => Or.inl rfl)
  refine partly.isForestOf listed fun c => ?_
  by_cases member : c ∈ order
  · exact grounded c (Or.inl member)
  · refine grounded c (Or.inr (grounded_of_eq_none ?_))
    cases linked : links.get? c with
    | none => rfl
    | some p => exact (member (listed c p linked)).elim

end CapabilityAtlas.Hierarchy
