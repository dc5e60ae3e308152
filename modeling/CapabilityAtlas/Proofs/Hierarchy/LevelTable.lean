import CapabilityAtlas.Proofs.Hierarchy.Descent
import CapabilityAtlas.Proofs.Hierarchy.Nesting

set_option autoImplicit false
set_option relaxedAutoImplicit false

/-!
The recursion for levels by rules that know only the path down to an id. Nothing in the rules bounds
the path; yet they come to an end for all children and ids, and with one answer, which is the table
of levels.
-/

namespace CapabilityAtlas.Hierarchy

variable {nesting : Nesting} {path free : List String} {known : Keyed Nat} {id : String}

mutual

/-- The level of an id below a path, with the levels that are known afterwards. -/
inductive Visits (nesting : Nesting) : List String → Keyed Nat → String → Nat × Keyed Nat → Prop
  | known {path : List String} {known : Keyed Nat} {id : String} {level : Nat}
      (found : known.get? id = some level) : Visits nesting path known id (level, known)
  | again {path : List String} {known : Keyed Nat} {id : String} (new : known.get? id = none)
      (met : id ∈ path) : Visits nesting path known id (1, known)
  | leaf {path : List String} {known : Keyed Nat} {id : String} (new : known.get? id = none)
      (fresh : id ∉ path) (leaf : childrenOf nesting id = []) :
      Visits nesting path known id (1, known.put id 1)
  | inner {path : List String} {known later : Keyed Nat} {id : String} {top : Nat}
      (new : known.get? id = none) (fresh : id ∉ path) (inner : childrenOf nesting id ≠ [])
      (kids : VisitsAll nesting (id :: path) known (childrenOf nesting id) (top, later)) :
      Visits nesting path known id (top + 1, later.put id (top + 1))

/-- The highest level of some ids below a path, with the levels that are known afterwards. -/
inductive VisitsAll (nesting : Nesting) :
    List String → Keyed Nat → List String → Nat × Keyed Nat → Prop
  | nil {path : List String} {known : Keyed Nat} : VisitsAll nesting path known [] (0, known)
  | cons {path rest : List String} {known later : Keyed Nat} {id : String} {level : Nat}
      {answer : Nat × Keyed Nat} (first : Visits nesting path known id (level, later))
      (others : VisitsAll nesting path later rest answer) :
      VisitsAll nesting path known (id :: rest) (max level answer.1, answer.2)

end

/-- The levels after some ids have been visited from the top, one after the other. -/
inductive Tabulates (nesting : Nesting) : Keyed Nat → List String → Keyed Nat → Prop
  | nil {known : Keyed Nat} : Tabulates nesting known [] known
  | cons {known later table : Keyed Nat} {id : String} {rest : List String} {level : Nat}
      (first : Visits nesting [] known id (level, later))
      (others : Tabulates nesting later rest table) : Tabulates nesting known (id :: rest) table

/-- Whether the free ids are those with children that are not on a path of such ids. -/
structure Complements (nesting : Nesting) (path free : List String) : Prop where
  nodup : free.Nodup
  listed : ∀ x ∈ path, x ∈ inner nesting
  mem_iff : ∀ x, x ∈ free ↔ x ∈ inner nesting ∧ x ∉ path

private theorem length_erase_lt_of_mem (member : id ∈ free) :
    (free.erase id).length < free.length := by
  rw [List.length_erase_of_mem member]
  exact Nat.sub_one_lt_of_lt (List.length_pos_of_mem member)

private theorem Complements.cons (complements : Complements nesting path free)
    (member : id ∈ free) :
    Complements nesting (id :: path) (free.erase id) := by
  have inner := ((complements.mem_iff id).mp member).1
  refine ⟨complements.nodup.erase id, List.forall_mem_cons.mpr ⟨inner, complements.listed⟩, ?_⟩
  intro x
  rw [complements.nodup.mem_erase_iff, complements.mem_iff, List.mem_cons, not_or]
  exact and_left_comm

private theorem visitsAll_highest
    (visits : ∀ known id, Visits nesting path known id (levelOf nesting free known id))
    (ids : List String) (known : Keyed Nat) :
    VisitsAll nesting path known ids (highest nesting free known ids) := by
  induction ids generalizing known with
  | nil =>
    rw [highest]
    exact .nil
  | cons id rest ih =>
    rw [highest]
    exact .cons (visits known id) (ih _)

private theorem visits_levelOf (complements : Complements nesting path free) :
    Visits nesting path known id (levelOf nesting free known id) := by
  -- The path becomes longer from an id to its children, and what is left outside it fewer.
  induction size : free.length using Nat.strongRecOn generalizing path free known id with
  | ind n ih =>
    rw [levelOf]
    cases new : known.get? id with
    | some level => exact .known new
    | none =>
      by_cases member : id ∈ free
      · have fewer : (free.erase id).length < n := size ▸ length_erase_lt_of_mem member
        obtain ⟨inner, fresh⟩ := (complements.mem_iff id).mp member
        simp only [if_pos member]
        exact .inner new fresh (mem_inner_iff.mp inner)
          (visitsAll_highest (fun _ _ => ih _ fewer (complements.cons member) rfl) _ known)
      · by_cases leaf : childrenOf nesting id = []
        · have fresh : id ∉ path := fun met => mem_inner_iff.mp (complements.listed id met) leaf
          simp only [if_neg member, leaf, List.isEmpty_nil, if_true]
          exact .leaf new fresh leaf
        · have met : id ∈ path := by
            by_contra fresh
            exact member ((complements.mem_iff id).mpr ⟨mem_inner_iff.mpr leaf, fresh⟩)
          simp only [if_neg member, List.isEmpty_iff, if_neg leaf]
          exact .again new met

mutual

private theorem Visits.unique {path : List String} {known : Keyed Nat} {id : String}
    {answer answer' : Nat × Keyed Nat} : Visits nesting path known id answer →
      Visits nesting path known id answer' → answer = answer'
  | .known found, other => by
    cases other with
    | known found' => rw [Option.some.inj (found.symm.trans found')]
    | again new => simp [found] at new
    | leaf new => simp [found] at new
    | inner new => simp [found] at new
  | .again new met, other => by
    cases other with
    | known found => simp [found] at new
    | again => rfl
    | leaf _ fresh => exact (fresh met).elim
    | inner _ fresh => exact (fresh met).elim
  | .leaf new fresh leaf, other => by
    cases other with
    | known found => simp [found] at new
    | again _ met => exact (fresh met).elim
    | leaf => rfl
    | inner _ _ inner => exact (inner leaf).elim
  | .inner new fresh inner kids, other => by
    cases other with
    | known found => simp [found] at new
    | again _ met => exact (fresh met).elim
    | leaf _ _ leaf => exact (inner leaf).elim
    | inner _ _ _ kids' =>
      obtain ⟨rfl, rfl⟩ := Prod.mk.inj (kids.unique kids')
      rfl

theorem VisitsAll.unique {path : List String} {known : Keyed Nat} {ids : List String}
    {answer answer' : Nat × Keyed Nat} : VisitsAll nesting path known ids answer →
      VisitsAll nesting path known ids answer' → answer = answer'
  | .nil, .nil => rfl
  | .cons first others, .cons first' others' => by
    obtain ⟨rfl, rfl⟩ := Prod.mk.inj (first.unique first')
    rw [others.unique others']

end

private theorem Tabulates.unique {ids : List String} {table table' : Keyed Nat}
    (tabulates : Tabulates nesting known ids table)
    (tabulates' : Tabulates nesting known ids table') : table = table' := by
  induction tabulates with
  | nil =>
    cases tabulates'
    rfl
  | cons first _ ih =>
    cases tabulates' with
    | cons first' others' =>
      obtain ⟨rfl, rfl⟩ := Prod.mk.inj (first.unique first')
      exact ih others'

/-- The rules give a table for all ids, which is the table of levels. -/
theorem tabulates_levelTable (nodup : (inner nesting).Nodup) (ids : List String) :
    Tabulates nesting [] ids (levelTable nesting ids) := by
  have complements : Complements nesting [] (inner nesting) := ⟨nodup, by simp, by simp⟩
  have run : ∀ known, Tabulates nesting known ids
      (ids.foldl (fun known id => (levelOf nesting (inner nesting) known id).2) known) := by
    induction ids with
    | nil => exact fun _ => .nil
    | cons id rest ih => exact fun known => .cons (visits_levelOf complements) (ih _)
  exact run []

end CapabilityAtlas.Hierarchy

/-!
The levels of any ids over any children. The path down to an id holds the ids that are being worked
on. None of them is known, all lead to the id, and whatever is known has its children known or on
the path. At the top the path is empty, so that the table ends up with exactly what the ids lead to.
-/

namespace CapabilityAtlas.Hierarchy

variable {nesting : Nesting} {free : List String} {known later : Keyed Nat} {id kid x : String}

/-- Whether an id is on the path: it has children and is not free. -/
def OnPath (nesting : Nesting) (free : List String) (id : String) : Prop :=
  id ∈ inner nesting ∧ id ∉ free

/-- The state in which an id is looked at. -/
structure Midway (nesting : Nesting) (free : List String) (known : Keyed Nat) (id : String) :
    Prop where
  nodup : free.Nodup
  listed : ∀ x ∈ free, x ∈ inner nesting
  path : ∀ x, OnPath nesting free x → LeadsTo nesting x id ∧ x ∉ known.keys
  turn : InTurn nesting known
  closed : ∀ x ∈ known.keys, ∀ kid ∈ childrenOf nesting x,
    kid ∈ known.keys ∨ OnPath nesting free kid

/-- Whether what becomes known lies below an id, in the state in which the id is looked at. -/
structure Advance (nesting : Nesting) (free : List String) (id : String)
    (known later : Keyed Nat) : Prop where
  grows : ∃ new, later = known ++ new
  below : ∀ x ∈ later.keys, x ∈ known.keys ∨ LeadsTo nesting id x
  midway : Midway nesting free later id

/-- What looking at an id gives: its level if it is known afterwards, one if it is on the path. -/
structure Looked (nesting : Nesting) (free : List String) (known : Keyed Nat) (id : String)
    (answer : Nat × Keyed Nat) : Prop where
  level : answer.1 = levelOrOne answer.2 id
  met : id ∈ answer.2.keys ∨ OnPath nesting free id
  advance : Advance nesting free id known answer.2

structure Collected (nesting : Nesting) (free : List String) (known : Keyed Nat) (id : String)
    (kids : List String) (answer : Nat × Keyed Nat) : Prop where
  highest : answer.1 = (kids.map (levelOrOne answer.2)).foldr max 0
  met : ∀ kid ∈ kids, kid ∈ answer.2.keys ∨ OnPath nesting free kid
  advance : Advance nesting free id known answer.2

private theorem OnPath.erase (onPath : OnPath nesting free x) : OnPath nesting (free.erase id) x :=
  ⟨onPath.1, fun inside => onPath.2 (List.mem_of_mem_erase inside)⟩

private theorem OnPath.of_erase (onPath : OnPath nesting (free.erase id) x) :
    x = id ∨ OnPath nesting free x := by
  by_cases same : x = id
  · exact Or.inl same
  · exact Or.inr ⟨onPath.1, fun inside => onPath.2 ((List.mem_erase_of_ne same).mpr inside)⟩

private theorem Advance.refl (midway : Midway nesting free known id) :
    Advance nesting free id known known :=
  ⟨⟨[], (List.append_nil known).symm⟩, fun _ member => Or.inl member, midway⟩

private theorem Advance.trans {latest : Keyed Nat} (first : Advance nesting free id known later)
    (second : Advance nesting free id later latest) : Advance nesting free id known latest := by
  obtain ⟨new, rfl⟩ := first.grows
  obtain ⟨newer, rfl⟩ := second.grows
  refine ⟨⟨new ++ newer, List.append_assoc _ _ _⟩, ?_, second.midway⟩
  intro x member
  rcases second.below x member with earlier | lower
  · exact first.below x earlier
  · exact Or.inr lower

private theorem Advance.mem_keys (advance : Advance nesting free id known later)
    (member : x ∈ known.keys) : x ∈ later.keys := by
  obtain ⟨new, rfl⟩ := advance.grows
  obtain ⟨level, found⟩ := Keyed.mem_keys_iff.mp member
  exact Keyed.mem_keys_iff.mpr ⟨level, Keyed.get?_append_of_get? found⟩

private theorem Advance.levelOrOne_eq (advance : Advance nesting free id known later)
    (unknown : ∀ x, OnPath nesting free x → x ∉ known.keys)
    (met : x ∈ known.keys ∨ OnPath nesting free x) :
    levelOrOne later x = levelOrOne known x := by
  rcases met with member | onPath
  · obtain ⟨new, rfl⟩ := advance.grows
    obtain ⟨level, found⟩ := Keyed.mem_keys_iff.mp member
    rw [levelOrOne_of_get? found, levelOrOne_of_get? (Keyed.get?_append_of_get? found)]
  · rw [levelOrOne_of_not_mem (unknown x onPath),
      levelOrOne_of_not_mem (advance.midway.path x onPath).2]

private theorem Midway.enter (midway : Midway nesting free known id)
    (step : HasChild nesting id kid) :
    Midway nesting free known kid :=
  { midway with path := fun x onPath => (midway.path x onPath).imp_left (·.tail step) }

/-- What becomes known below a child becomes known below the id. -/
private theorem Advance.leave (advance : Advance nesting free kid known later)
    (midway : Midway nesting free known id) (step : HasChild nesting id kid) :
    Advance nesting free id known later := by
  refine ⟨advance.grows, ?_, ?_⟩
  · exact fun x member => (advance.below x member).imp_right (·.head step)
  · exact { advance.midway with
      path := fun x onPath => ⟨(midway.path x onPath).1, (advance.midway.path x onPath).2⟩ }

private theorem Midway.descend (midway : Midway nesting free known id) (new : id ∉ known.keys) :
    Midway nesting (free.erase id) known id := by
  refine ⟨midway.nodup.erase id, fun x inside => midway.listed x (List.mem_of_mem_erase inside),
    ?_, midway.turn, ?_⟩
  · intro x onPath
    rcases onPath.of_erase with rfl | onPath
    · exact ⟨Relation.ReflTransGen.refl, new⟩
    · exact midway.path x onPath
  · exact fun x inside kid child => (midway.closed x inside kid child).imp_right OnPath.erase

private theorem collected_highest
    (look : ∀ known kid, Midway nesting free known kid →
      Looked nesting free known kid (levelOf nesting free known kid))
    (kids : List String) (children : ∀ kid ∈ kids, HasChild nesting id kid)
    (midway : Midway nesting free known id) :
    Collected nesting free known id kids (highest nesting free known kids) := by
  induction kids generalizing known with
  | nil =>
    rw [highest]
    exact ⟨rfl, by simp, Advance.refl midway⟩
  | cons kid rest ih =>
    have step := children kid List.mem_cons_self
    have looked := look known kid (midway.enter step)
    have first := looked.advance.leave midway step
    have later := ih (fun k member => children k (List.mem_cons_of_mem _ member)) first.midway
    rw [highest]
    refine ⟨?_, ?_, first.trans later.advance⟩
    · have kept := later.advance.levelOrOne_eq (fun x onPath => (first.midway.path x onPath).2)
        looked.met
      rw [List.map_cons, List.foldr_cons, kept, ← looked.level, ← later.highest]
    · intro k member
      rcases List.mem_cons.mp member with rfl | member
      · exact looked.met.imp_left later.advance.mem_keys
      · exact later.met k member

private theorem looked_put (midway : Midway nesting free known id) (off : ¬ OnPath nesting free id)
    {top : Nat}
    (collected : Collected nesting (free.erase id) known id (childrenOf nesting id) (top, later))
    (new : id ∉ later.keys) : Looked nesting free known id (top + 1, later.put id (top + 1)) := by
  obtain ⟨highest, met, advance⟩ := collected
  have level : top + 1 = levelOver nesting later id := congrArg (· + 1) highest
  have mem_iff : ∀ x, x ∈ (later.put id (top + 1)).keys ↔ x ∈ later.keys ∨ x = id := by
    intro x
    rw [Keyed.put_of_not_mem new, Keyed.keys_concat, List.mem_append, List.mem_singleton]
  have turn : InTurn nesting (later.put id (top + 1)) := by
    rw [Keyed.put_of_not_mem new, level]
    refine advance.midway.turn.concat new fun kid child => ?_
    exact (met kid child).imp_right fun onPath => (advance.midway.path kid onPath).1
  -- On the path of the children was the id itself; it is known now.
  have off_path : ∀ kid, kid ∈ later.keys ∨ OnPath nesting (free.erase id) kid →
      kid ∈ (later.put id (top + 1)).keys ∨ OnPath nesting free kid := by
    rintro kid (inside | onPath)
    · exact Or.inl ((mem_iff kid).mpr (Or.inl inside))
    · exact onPath.of_erase.imp_left fun same => (mem_iff kid).mpr (Or.inr same)
  refine ⟨(levelOrOne_of_get? (Keyed.get?_put_self _ _ _)).symm,
    Or.inl ((mem_iff id).mpr (Or.inr rfl)), ?_, ?_, midway.nodup, midway.listed, ?_, turn, ?_⟩
  · obtain ⟨gained, rfl⟩ := advance.grows
    exact ⟨gained ++ [(id, top + 1)], by rw [Keyed.put_of_not_mem new, List.append_assoc]⟩
  · intro x inside
    rcases (mem_iff x).mp inside with inside | rfl
    · exact advance.below x inside
    · exact Or.inr Relation.ReflTransGen.refl
  · intro x onPath
    refine ⟨(midway.path x onPath).1, fun inside => ?_⟩
    rcases (mem_iff x).mp inside with inside | rfl
    · exact (advance.midway.path x onPath.erase).2 inside
    · exact off onPath
  · intro x inside kid child
    rcases (mem_iff x).mp inside with inside | rfl
    · exact off_path kid (advance.midway.closed x inside kid child)
    · exact off_path kid (met kid child)

private theorem looked_levelOf (midway : Midway nesting free known id) :
    Looked nesting free known id (levelOf nesting free known id) := by
  -- The ids that are free become fewer from an id to its children.
  induction size : free.length using Nat.strongRecOn generalizing free known id with
  | ind n ih =>
    rw [levelOf]
    cases found : known.get? id with
    | some level =>
      exact ⟨(levelOrOne_of_get? found).symm, Or.inl (Keyed.mem_keys_iff.mpr ⟨level, found⟩),
        Advance.refl midway⟩
    | none =>
      have new : id ∉ known.keys := by
        rw [Keyed.mem_keys_iff, found]
        simp
      by_cases member : id ∈ free
      · have fewer : (free.erase id).length < n := size ▸ length_erase_lt_of_mem member
        have collected := collected_highest (fun known kid midway => ih _ fewer midway rfl)
          (childrenOf nesting id) (fun _ child => child) (midway.descend new)
        have onPath : OnPath nesting (free.erase id) id :=
          ⟨midway.listed id member, midway.nodup.not_mem_erase⟩
        simp only [if_pos member]
        exact looked_put midway (fun off => off.2 member) collected
          (collected.advance.midway.path id onPath).2
      · by_cases leaf : childrenOf nesting id = []
        · have collected : Collected nesting (free.erase id) known id (childrenOf nesting id)
              (0, known) := by
            rw [leaf]
            exact ⟨rfl, by simp, Advance.refl (midway.descend new)⟩
          have off : ¬ OnPath nesting free id := fun onPath => mem_inner_iff.mp onPath.1 leaf
          simp only [if_neg member, leaf, List.isEmpty_nil, if_true]
          exact looked_put midway off collected new
        · simp only [if_neg member, List.isEmpty_iff, if_neg leaf]
          exact ⟨(levelOrOne_of_not_mem new).symm, Or.inr ⟨mem_inner_iff.mpr leaf, member⟩,
            Advance.refl midway⟩

/-- The state after some of the ids have been gone through: the path is empty. -/
structure TableOf (nesting : Nesting) (tops : List String) (known : Keyed Nat) : Prop where
  turn : InTurn nesting known
  closed : ∀ x ∈ known.keys, ∀ kid ∈ childrenOf nesting x, kid ∈ known.keys
  mem_iff : ∀ x, x ∈ known.keys ↔ ∃ top ∈ tops, LeadsTo nesting top x

private theorem not_onPath_inner (id : String) : ¬ OnPath nesting (inner nesting) id :=
  fun onPath => onPath.2 onPath.1

private theorem TableOf.step {tops : List String} (table : TableOf nesting tops known)
    (nodup : (inner nesting).Nodup) (id : String) :
    TableOf nesting (tops ++ [id]) (levelOf nesting (inner nesting) known id).2 := by
  have midway : Midway nesting (inner nesting) known id :=
    ⟨nodup, fun _ member => member, fun x onPath => (not_onPath_inner x onPath).elim, table.turn,
      fun x inside kid child => Or.inl (table.closed x inside kid child)⟩
  obtain ⟨-, met, advance⟩ := looked_levelOf midway
  have closed : ∀ x ∈ (levelOf nesting (inner nesting) known id).2.keys,
      ∀ kid ∈ childrenOf nesting x, kid ∈ (levelOf nesting (inner nesting) known id).2.keys :=
    fun x inside kid child =>
      (advance.midway.closed x inside kid child).resolve_right (not_onPath_inner kid)
  refine ⟨advance.midway.turn, closed, fun x => ⟨fun inside => ?_, ?_⟩⟩
  · rcases advance.below x inside with before | below
    · obtain ⟨top, listed, leads⟩ := (table.mem_iff x).mp before
      exact ⟨top, List.mem_append_left _ listed, leads⟩
    · exact ⟨id, by simp, below⟩
  · rintro ⟨top, listed, leads⟩
    refine mem_of_leadsTo closed ?_ leads
    rcases List.mem_append.mp listed with listed | listed
    · exact advance.mem_keys ((table.mem_iff top).mpr ⟨top, listed, Relation.ReflTransGen.refl⟩)
    · obtain rfl := List.mem_singleton.mp listed
      exact met.resolve_right (not_onPath_inner top)

theorem tableOf_levelTable (nodup : (inner nesting).Nodup) (ids : List String) :
    TableOf nesting ids (levelTable nesting ids) := by
  have run : ∀ later before known, TableOf nesting before known →
      TableOf nesting (before ++ later)
        (later.foldl (fun known id => (levelOf nesting (inner nesting) known id).2) known) := by
    intro later
    induction later with
    | nil =>
      intro before known table
      rwa [List.append_nil]
    | cons id rest ih =>
      intro before known table
      rw [List.append_cons]
      exact ih _ _ (table.step nodup id)
  exact run ids [] [] ⟨InTurn.nil, by simp [Keyed.keys], by simp [Keyed.keys]⟩

/-- The levels over any children, be they on circles, in several places, repeated or without an
entry of their own: the recursion ends, with a table of exactly the ids to which the given ones
lead; each level measures what lies below its id, and without circles the order of the given ids
does not show. -/
theorem levelTable_measures_below (distinct : nesting.keys.Nodup) (ids : List String) :
    (∀ table, Tabulates nesting [] ids table ↔ table = levelTable nesting ids) ∧
    (levelTable nesting ids).keys.Nodup ∧
    (∀ id, id ∈ (levelTable nesting ids).keys ↔ ∃ top ∈ ids, LeadsTo nesting top id) ∧
    (∀ id level, (levelTable nesting ids).get? id = some level →
      Measures nesting (levelTable nesting ids) id level) ∧
    (Acyclic nesting → ∀ other, ids.Perm other →
      (levelTable nesting other).get? = (levelTable nesting ids).get?) := by
  have tableOf := tableOf_levelTable (nodup_inner distinct)
  have measures : ∀ ids id level, (levelTable nesting ids).get? id = some level →
      Measures nesting (levelTable nesting ids) id level :=
    fun ids id level found => (tableOf ids).turn.measures (tableOf ids).closed found
  have kept : Acyclic nesting → ∀ ids other, ids.Perm other → ∀ id level,
      (levelTable nesting ids).get? id = some level →
        (levelTable nesting other).get? id = some level := by
    intro acyclic ids other perm id level found
    obtain ⟨top, listed, leads⟩ :=
      ((tableOf ids).mem_iff id).mp (Keyed.mem_keys_iff.mpr ⟨level, found⟩)
    obtain ⟨level', found'⟩ := Keyed.mem_keys_iff.mp
      (((tableOf other).mem_iff id).mpr ⟨top, perm.mem_iff.mp listed, leads⟩)
    have same := ((measures ids id level found).longest acyclic).unique
      ((measures other id level' found').longest acyclic)
    rw [found', same]
  have tabulates := tabulates_levelTable (nodup_inner distinct) ids
  refine ⟨fun table => ⟨fun given => given.unique tabulates, fun same => same ▸ tabulates⟩,
    (tableOf ids).turn.nodup, (tableOf ids).mem_iff, measures ids, ?_⟩
  intro acyclic other perm
  funext id
  exact Option.ext fun level =>
    ⟨kept acyclic other ids perm.symm id level, kept acyclic ids other perm id level⟩

/-- Children on two circles, one repeated, some in two places and some without an entry. -/
def tangledNesting : Nesting :=
  [("a", ["b", "b", "d"]), ("b", ["a", "c"]), ("e", ["b", "e"]), ("f", [])]

/-- Children in two places that lie on no circle. -/
def layeredNesting : Nesting := [("a", ["c", "b"]), ("b", ["c", "d"])]

theorem acyclic_layeredNesting : Acyclic layeredNesting := by
  -- The place in the alphabet grows from an id to its children.
  have later : ∀ id kid, HasChild layeredNesting id kid → id < kid := by
    intro id kid child
    by_cases first : id = "a"
    · subst first
      have listed : kid ∈ ["c", "b"] := child
      rcases List.mem_pair.mp listed with rfl | rfl <;> decide
    · by_cases second : id = "b"
      · subst second
        have listed : kid ∈ ["c", "d"] := child
        rcases List.mem_pair.mp listed with rfl | rfl <;> decide
      · have barren : childrenOf layeredNesting id = [] := by
          simp [childrenOf, layeredNesting, Keyed.get?, Ne.symm first, Ne.symm second]
        rw [HasChild, barren] at child
        simp at child
  have below : ∀ id x, Relation.TransGen (HasChild layeredNesting) id x → id < x := by
    intro id x leads
    induction leads with
    | single step => exact later _ _ step
    | tail _ step ih => exact String.lt_trans ih (later _ _ step)
  exact fun id circle => String.lt_irrefl id (below id id circle)

theorem levelTable_measures_below_of_tangled :
    tangledNesting.keys.Nodup ∧
      levelTable tangledNesting ["b", "e"] =
        [("d", 1), ("a", 2), ("c", 1), ("b", 3), ("e", 4)] ∧
      Measures tangledNesting (levelTable tangledNesting ["b", "e"]) "e" 4 ∧
    layeredNesting.keys.Nodup ∧ (levelTable layeredNesting ["d", "a"]).get? "a" = some 3 ∧
      IsGreatest {n | ∃ way, Descent layeredNesting "a" way ∧ way.length = n} 3 := by
  have tangled : tangledNesting.keys.Nodup := by decide
  have layered : layeredNesting.keys.Nodup := by decide
  have table : levelTable tangledNesting ["b", "e"] =
      [("d", 1), ("a", 2), ("c", 1), ("b", 3), ("e", 4)] := by
    simp [tangledNesting, levelTable, levelOf, highest, inner, childrenOf, Keyed.get?, Keyed.put,
      Keyed.keys]
  have level : (levelTable tangledNesting ["b", "e"]).get? "e" = some 4 := by
    rw [table]
    decide
  have height : (levelTable layeredNesting ["d", "a"]).get? "a" = some 3 := by
    simp [layeredNesting, levelTable, levelOf, highest, inner, childrenOf, Keyed.get?, Keyed.put,
      Keyed.keys]
  obtain ⟨-, -, -, tangles, -⟩ := levelTable_measures_below tangled ["b", "e"]
  obtain ⟨-, -, -, layers, -⟩ := levelTable_measures_below layered ["d", "a"]
  exact ⟨tangled, table, tangles "e" 4 level, layered, height,
    (layers "a" 3 height).longest acyclic_layeredNesting⟩

end CapabilityAtlas.Hierarchy
