import CapabilityAtlas.Proofs.Order
import CapabilityAtlas.Proofs.Search.Score
import CapabilityAtlas.Proofs.Search.Searchable

set_option autoImplicit false
set_option relaxedAutoImplicit false

/-!
What a search lists. A capability is listed with the best score of its fields and the first field
that has it; the order is by falling score, then by name and id. Since no two capabilities share an
id, nothing is tied, so the list does not depend on the order in which the capabilities come.
-/

namespace CapabilityAtlas.Search

open CapabilityAtlas.Hierarchy CapabilityAtlas.Text
open CapabilityAtlas.Engine (trimmed queryText_text)

variable {α : Type}

section Best

variable [WordDistance] [Add α] [Div α] [NatCast α] {query : String}

def fieldScore? (query : String) : Payload → Option α
  | .text target => score? target.toList query.toList
  | _ => none

private theorem scoreValue?_of_isTextual {value : Payload} (textual : isTextual value)
    (query : String) :
    scoreValue? value (.text query) = .ok (fieldScore? query value : Option α) := by
  cases value with
  | text target => exact scoreValue?_text target query
  | null | bool | int | float | list | record | stamp =>
    exact if_pos ((Bool.or_eq_true _ _).mpr (Or.inl textual))

private theorem isScore_of_fieldScore? {value : Payload} {score : α}
    (scored : fieldScore? query value = some score) : IsScore score := by
  cases value with
  | text target => exact ⟨_, _, scored⟩
  | _ => exact absurd scored (Option.some_ne_none score).symm

variable [LT α]

/-- The first field of the best score: those before it score less, those after it not more. -/
structure IsBest (query : String) (candidates : List (Field × Payload)) (score : α)
    (field : Field) : Prop where
  attained : ∃ before value after, candidates = before ++ (field, value) :: after ∧
    fieldScore? query value = some score ∧
    ∀ candidate ∈ before, ∀ other, fieldScore? query candidate.2 = some other → other < score
  greatest : ∀ candidate ∈ candidates, ∀ other, fieldScore? query candidate.2 = some other →
    ¬ score < other

variable {candidates : List (Field × Payload)} {score score' : α} {field field' : Field}

private theorem IsBest.unique (best : IsBest query candidates score field)
    (best' : IsBest query candidates score' field') : score = score' ∧ field = field' := by
  obtain ⟨before, value, after, split, scored, less⟩ := best.attained
  obtain ⟨before', value', after', split', scored', less'⟩ := best'.attained
  have member : (field, value) ∈ candidates := by simp [split]
  have member' : (field', value') ∈ candidates := by simp [split']
  have aligned : before = before' := by
    rcases List.append_eq_append_iff.mp (split.symm.trans split') with
      ⟨between, rfl, rest⟩ | ⟨between, rfl, rest⟩
    · cases between with
      | nil => exact (List.append_nil before).symm
      | cons c between =>
        obtain ⟨rfl, -⟩ := List.cons.inj rest
        exact absurd (less' (field, value) (by simp) score scored)
          (best.greatest (field', value') member' score' scored')
    · cases between with
      | nil => exact List.append_nil before'
      | cons c between =>
        obtain ⟨rfl, -⟩ := List.cons.inj rest
        exact absurd (less (field', value') (by simp) score' scored')
          (best'.greatest (field, value) member score scored)
  rw [split, aligned, List.append_cancel_left_eq] at split'
  obtain ⟨same, -⟩ := List.cons.inj split'
  obtain ⟨rfl, rfl⟩ := Prod.mk.inj same
  exact ⟨Option.some.inj (scored.symm.trans scored'), rfl⟩

def bestScore? [DecidableLT α] (query : String) (candidates : List (Field × Payload)) :
    Option (α × Field) :=
  candidates.foldl
    (fun best candidate => better candidate.1 best (fieldScore? query candidate.2)) none

/-- What is kept of some candidates: the first of the best scores, and nothing if none matches. -/
private def Keeps (query : String) (candidates : List (Field × Payload)) : Option (α × Field) → Prop
  | none => ∀ candidate ∈ candidates, (fieldScore? query candidate.2 : Option α) = none
  | some (score, field) => IsBest query candidates score field

private theorem IsBest.concat {last : Field × Payload} (best : IsBest query candidates score field)
    (least : ∀ other, fieldScore? query last.2 = some other → ¬ score < other) :
    IsBest query (candidates ++ [last]) score field := by
  obtain ⟨before, value, after, rfl, scored, less⟩ := best.attained
  refine ⟨⟨before, value, after ++ [last], by simp, scored, less⟩, ?_⟩
  exact List.forall_mem_append.mpr ⟨best.greatest, List.forall_mem_singleton.mpr least⟩

section Ordered

variable [OrderedScores α]

private theorem isBest_concat {last : Field × Payload}
    (scored : fieldScore? query last.2 = some score)
    (less : ∀ candidate ∈ candidates, ∀ other, fieldScore? query candidate.2 = some other →
      other < score) : IsBest query (candidates ++ [last]) score last.1 := by
  have own : IsScore score := isScore_of_fieldScore? scored
  refine ⟨⟨candidates, last.2, [], rfl, scored, less⟩, ?_⟩
  refine List.forall_mem_append.mpr ⟨fun candidate member other found => ?_, ?_⟩
  · exact (isScore_of_fieldScore? found).lt_asymm own (less candidate member other found)
  · rintro _ (_ | ⟨_, ⟨⟩⟩) other found
    obtain rfl := Option.some.inj (scored.symm.trans found)
    exact fun more => own.lt_asymm own more more

variable [DecidableLT α]

private theorem keeps_better {best : Option (α × Field)} (kept : Keeps query candidates best)
    (last : Field × Payload) :
    Keeps query (candidates ++ [last]) (better last.1 best (fieldScore? query last.2)) := by
  cases scored : (fieldScore? query last.2 : Option α) with
  | none =>
    cases best with
    | none => exact List.forall_mem_append.mpr ⟨kept, List.forall_mem_singleton.mpr scored⟩
    | some found => exact IsBest.concat kept (by simp [scored])
  | some score =>
    cases best with
    | none => exact isBest_concat scored fun candidate member => by simp [kept candidate member]
    | some found =>
      obtain ⟨top, first⟩ := found
      have kept : IsBest query candidates top first := kept
      obtain ⟨-, value, -, -, held, -⟩ := kept.attained
      unfold better
      dsimp only
      split_ifs with more
      · refine isBest_concat scored fun candidate member other found => ?_
        exact (isScore_of_fieldScore? found).lt_of_not_lt_of_lt (isScore_of_fieldScore? held)
          (isScore_of_fieldScore? scored) (kept.greatest candidate member other found) more
      · exact IsBest.concat kept (by simpa [scored] using more)

private theorem keeps_bestScore? (query : String) (candidates : List (Field × Payload)) :
    Keeps query candidates (bestScore? query candidates : Option (α × Field)) := by
  induction candidates using List.reverseRecOn with
  | nil => exact fun candidate member => absurd member List.not_mem_nil
  | append_singleton earlier last ih =>
    rw [bestScore?, List.foldl_append]
    exact keeps_better ih last

end Ordered

end Best

section Hits

variable [WordDistance] [Add α] [Div α] [NatCast α] [LT α] {query : String} {e : Entry}

/-- What is listed of a capability that matches. -/
structure IsHit (query : String) (e : Entry) (hit : Hit α) : Prop where
  id : hit.id = e.id
  name : hit.name = e.name
  successRate : hit.successRate = e.capability.successRate
  toolCount : hit.toolCount = e.tools.length
  best : IsBest query (fields e) hit.score hit.field

private theorem IsHit.isScore {hit : Hit α} (listed : IsHit query e hit) : IsScore hit.score := by
  obtain ⟨-, value, -, -, scored, -⟩ := listed.best.attained
  exact isScore_of_fieldScore? scored

variable [DecidableLT α]

def hitOf? (query : String) (e : Entry) : Option (Hit α) :=
  (bestScore? query (fields e)).map (fun found => {
    id := e.id
    name := e.name
    score := found.1
    field := found.2
    successRate := e.capability.successRate
    toolCount := e.tools.length })

section Ordered

variable [OrderedScores α]

private theorem hitOf?_eq_some_iff {hit : Hit α} :
    hitOf? query e = some hit ↔ IsHit query e hit := by
  have kept := keeps_bestScore? (α := α) query (fields e)
  rw [hitOf?]
  cases found : (bestScore? query (fields e) : Option (α × Field)) with
  | none =>
    rw [found] at kept
    refine iff_of_false (Option.some_ne_none hit).symm fun listed => ?_
    obtain ⟨before, value, after, split, scored, -⟩ := listed.best.attained
    have missed := kept (hit.field, value) (by simp [split])
    exact Option.some_ne_none hit.score (scored.symm.trans missed)
  | some best =>
    rw [found] at kept
    rw [Option.map_some, Option.some_inj]
    constructor
    · rintro rfl
      exact ⟨rfl, rfl, rfl, rfl, kept⟩
    · rintro ⟨id, name, successRate, toolCount, best'⟩
      obtain ⟨score, field⟩ := IsBest.unique kept best'
      cases hit
      simp_all

private theorem isSome_hitOf?_iff : (hitOf? query e : Option (Hit α)).isSome ↔
    ∃ candidate ∈ fields e, (fieldScore? query candidate.2 : Option α).isSome := by
  have kept := keeps_bestScore? (α := α) query (fields e)
  rw [hitOf?, Option.isSome_map]
  cases found : (bestScore? query (fields e) : Option (α × Field)) with
  | none =>
    rw [found] at kept
    refine iff_of_false Bool.false_ne_true ?_
    rintro ⟨candidate, member, matched⟩
    rw [kept candidate member] at matched
    exact Bool.false_ne_true matched
  | some best =>
    rw [found] at kept
    obtain ⟨before, value, after, split, scored, -⟩ := kept.attained
    exact iff_of_true rfl ⟨(best.2, value), by simp [split], by rw [scored]; rfl⟩

end Ordered

theorem best?_eq {candidates : List (Field × Payload)}
    (textual : ∀ candidate ∈ candidates, isTextual candidate.2) (query : String) :
    best? query candidates = .ok (bestScore? query candidates : Option (α × Field)) := by
  refine foldlM_eq_ok candidates none fun best candidate member => ?_
  rw [scoreValue?_of_isTextual (textual candidate member)]
  rfl

private theorem hit?_eq (searchable : Searchable e.capability) (query : String) :
    hit? query e = .ok (hitOf? query e : Option (Hit α)) := by
  rw [hit?, best?_eq (isTextual_of_mem_fields searchable)]
  rfl

end Hits

section Line

/-- A hit with its score moved to its place in a line. -/
private def Hit.moved {β : Type} (place : α → β) (hit : Hit α) : Hit β where
  id := hit.id
  name := hit.name
  score := place hit.score
  field := hit.field
  successRate := hit.successRate
  toolCount := hit.toolCount

private theorem hitLe_iff [LT α] [DecidableLT α] {a b : Hit α} : hitLe a b ↔
    b.score < a.score ∨ ¬ a.score < b.score ∧ Order.pairLe (a.name, a.id) (b.name, b.id) := by
  simp [hitLe]

variable [LinearOrder α]

theorem hitLe_trans (a b c : Hit α) (first : hitLe a b) (second : hitLe b c) : hitLe a c := by
  rw [hitLe_iff] at first second ⊢
  rcases first with less | ⟨least, le⟩
  · left
    rcases second with less' | ⟨least', -⟩
    · exact less'.trans less
    · exact (not_lt.mp least').trans_lt less
  · rcases second with less' | ⟨least', le'⟩
    · exact Or.inl (less'.trans_le (not_lt.mp least))
    · exact Or.inr ⟨((not_lt.mp least').trans (not_lt.mp least)).not_gt,
        Order.pairLe_trans _ _ _ le le'⟩

theorem hitLe_total (a b : Hit α) : hitLe a b || hitLe b a := by
  rw [Bool.or_eq_true, hitLe_iff, hitLe_iff]
  rcases lt_trichotomy a.score b.score with less | same | less
  · exact Or.inr (Or.inl less)
  · rcases (Bool.or_eq_true _ _).mp (Order.pairLe_total (a.name, a.id) (b.name, b.id)) with le | le
    · exact Or.inl (Or.inr ⟨same.not_lt, le⟩)
    · exact Or.inr (Or.inr ⟨same.not_gt, le⟩)
  · exact Or.inl (Or.inl less)

private theorem id_eq_of_hitLe {a b : Hit α} (first : hitLe a b) (second : hitLe b a) :
    a.id = b.id := by
  rw [hitLe_iff] at first second
  rcases first with less | ⟨least, le⟩
  · rcases second with less' | ⟨least', -⟩
    · exact absurd less' less.asymm
    · exact absurd less least'
  · rcases second with less' | ⟨-, le'⟩
    · exact absurd less' least
    · exact Order.snd_eq_of_pairLe le le'

end Line

section Sorted

variable [WordDistance] [Add α] [Div α] [NatCast α] [LT α] [DecidableLT α] [OrderedScores α]
  {xs ys : List (Hit α)}

private theorem exists_mergeSort_hitLe_eq : ∃ le : Hit α → Hit α → Bool,
    (∀ a b c, le a b → le b c → le a c) ∧ (∀ a b, le a b || le b a) ∧
    (∀ a b, le a b → le b a → a.id = b.id) ∧
    ∀ a b, IsScore a.score → IsScore b.score → hitLe a b = le a b := by
  obtain ⟨β, _, place, ordered⟩ := OrderedScores.exists_place (α := α)
  refine ⟨fun a b => hitLe (a.moved place) (b.moved place),
    fun a b c => hitLe_trans (a.moved place) (b.moved place) (c.moved place),
    fun a b => hitLe_total (a.moved place) (b.moved place), fun a b => id_eq_of_hitLe, ?_⟩
  intro a b first second
  rw [Bool.eq_iff_iff, hitLe_iff, hitLe_iff, ordered _ _ first second, ordered _ _ second first]
  rfl

private theorem pairwise_mergeSort_hitLe (scores : ∀ hit ∈ xs, IsScore hit.score) :
    (xs.mergeSort hitLe).Pairwise (fun a b => hitLe a b) := by
  obtain ⟨le, trans, total, -, same⟩ := exists_mergeSort_hitLe_eq (α := α)
  have agree : ∀ a ∈ xs, ∀ b ∈ xs, hitLe a b = le a b := fun a first b second =>
    same a b (scores a first) (scores b second)
  refine (Order.mergeSort_congr agree ▸ List.pairwise_mergeSort trans total xs).imp_of_mem ?_
  intro a b first second before
  rwa [agree a (List.mem_mergeSort.mp first) b (List.mem_mergeSort.mp second)]

private theorem mergeSort_hitLe_eq_of_perm (scores : ∀ hit ∈ xs, IsScore hit.score)
    (distinct : (xs.map Hit.id).Nodup) (perm : xs.Perm ys) :
    xs.mergeSort hitLe = ys.mergeSort hitLe := by
  obtain ⟨le, trans, total, tied, same⟩ := exists_mergeSort_hitLe_eq (α := α)
  have scores' : ∀ hit ∈ ys, IsScore hit.score := fun hit member =>
    scores hit (perm.mem_iff.mpr member)
  rw [Order.mergeSort_congr fun a first b second => same a b (scores a first) (scores b second),
    Order.mergeSort_congr fun a first b second => same a b (scores' a first) (scores' b second)]
  refine Order.mergeSort_eq_of_perm trans total perm fun a first b second before after => ?_
  exact List.inj_on_of_nodup_map distinct first second (tied a b before after)

end Sorted

section Ranked

theorem length_firstHits_le {count : Int} (nonneg : 0 ≤ count) (hits : List (Hit α)) :
    (firstHits count hits).length ≤ count := by
  rw [firstHits, List.length_take, if_neg (by omega)]
  omega

private theorem firstHits_natCast (k : Nat) (hits : List (Hit α)) :
    firstHits k hits = hits.take k := by
  rw [firstHits, if_neg (Int.not_lt.mpr (Int.natCast_nonneg k)), Int.toNat_natCast]

variable [LT α]

/-- A hit that is listed before another one: it has a greater score or, with the same score, an
earlier name or, with the same name as well, an earlier id. -/
def Precedes (a b : Hit α) : Prop :=
  b.score < a.score ∨
    ¬ a.score < b.score ∧ (a.name < b.name ∨ a.name = b.name ∧ a.id < b.id)

variable [DecidableLT α]

private theorem precedes_of_hitLe {a b : Hit α} (before : hitLe a b) (apart : a.id ≠ b.id) :
    Precedes a b := by
  rw [hitLe_iff, Order.pairLe_iff] at before
  rcases before with less | ⟨least, earlier | ⟨same, le⟩⟩
  · exact Or.inl less
  · exact Or.inr ⟨least, Or.inl earlier⟩
  · refine Or.inr ⟨least, Or.inr ⟨same, ?_⟩⟩
    exact String.not_le.mp fun ge => apart (String.le_antisymm le ge)

variable [WordDistance] [Add α] [Div α] [NatCast α] {entries others : List Entry}
  {query : String}

theorem rank_eq (searchable : ∀ e ∈ entries, Searchable e.capability) (query : String)
    (least : Int) (k : Nat) :
    rank { minQueryLength := least, maxResults := k } entries query =
      .ok (if query.toList.length < least then []
        else ((entries.filterMap (hitOf? query)).mergeSort hitLe : List (Hit α)).take k) := by
  have compared : entries.mapM (hit? query) =
      .ok (entries.map (hitOf? query : Entry → Option (Hit α))) :=
    mapM_eq_ok_map fun e member => hit?_eq (searchable e member) query
  rw [rank, compared]
  split_ifs with short
  · rfl
  · have listed : (entries.map (hitOf? query : Entry → Option (Hit α))).filterMap id =
        entries.filterMap (hitOf? query) := List.filterMap_map
    change Except.ok (firstHits k (((entries.map (hitOf? query)).filterMap id).mergeSort hitLe)) = _
    rw [firstHits_natCast, listed]

variable [OrderedScores α]

private theorem mem_filterMap_hitOf?_iff {hit : Hit α} :
    hit ∈ entries.filterMap (hitOf? query) ↔ ∃ e ∈ entries, IsHit query e hit := by
  simp only [List.mem_filterMap, hitOf?_eq_some_iff]

private theorem nodup_map_id_filterMap_hitOf? (distinct : (entries.map Entry.id).Nodup) :
    ((entries.filterMap (hitOf? query) : List (Hit α)).map Hit.id).Nodup := by
  rw [List.Nodup, List.pairwise_map, List.pairwise_filterMap]
  refine (List.pairwise_map.mp distinct).imp fun {e f} apart hit first hit' second => ?_
  rw [(hitOf?_eq_some_iff.mp first).id, (hitOf?_eq_some_iff.mp second).id]
  exact apart

private theorem exists_hit_id_iff (distinct : (entries.map Entry.id).Nodup) {e : Entry}
    (member : e ∈ entries) :
    (∃ hit ∈ (entries.filterMap (hitOf? query) : List (Hit α)), hit.id = e.id) ↔
      ∃ candidate ∈ fields e, (fieldScore? query candidate.2 : Option α).isSome := by
  rw [← isSome_hitOf?_iff, Option.isSome_iff_exists]
  constructor
  · rintro ⟨hit, inside, same⟩
    obtain ⟨e', member', listed⟩ := mem_filterMap_hitOf?_iff.mp inside
    obtain rfl := List.inj_on_of_nodup_map distinct member' member (listed.id.symm.trans same)
    exact ⟨hit, hitOf?_eq_some_iff.mpr listed⟩
  · rintro ⟨hit, found⟩
    have listed := hitOf?_eq_some_iff.mp found
    exact ⟨hit, mem_filterMap_hitOf?_iff.mpr ⟨e, member, listed⟩, listed.id⟩

private theorem isScore_of_mem_filterMap_hitOf? :
    ∀ hit ∈ (entries.filterMap (hitOf? query) : List (Hit α)), IsScore hit.score := by
  intro hit member
  obtain ⟨e, -, listed⟩ := mem_filterMap_hitOf?_iff.mp member
  exact listed.isScore

private theorem pairwise_precedes_mergeSort (distinct : (entries.map Entry.id).Nodup) :
    ((entries.filterMap (hitOf? query) : List (Hit α)).mergeSort hitLe).Pairwise Precedes := by
  have perm := List.mergeSort_perm (entries.filterMap (hitOf? query) : List (Hit α)) hitLe
  have apart := (perm.map Hit.id).nodup_iff.mpr (nodup_map_id_filterMap_hitOf? distinct)
  exact (pairwise_mergeSort_hitLe isScore_of_mem_filterMap_hitOf?).imp₂
    (fun a b => precedes_of_hitLe) (List.pairwise_map.mp apart)

/-- A search lists the hits sorted, in whatever order the capabilities come. -/
theorem rankValue_eq_of_perm (distinct : (entries.map Entry.id).Nodup)
    (searchable : ∀ e ∈ entries, Searchable e.capability) (query : String) (least : Int)
    (perm : others.Perm entries) (k : Nat) :
    rankValue { minQueryLength := least, maxResults := k } others (.text query) =
      .ok (if (trimmed query).toList.length < least then []
        else ((entries.filterMap (hitOf? (trimmed query)) : List (Hit α)).mergeSort hitLe).take k)
    := by
  have searchable' : ∀ e ∈ others, Searchable e.capability := fun e member =>
    searchable e (perm.mem_iff.mp member)
  rw [rankValue, queryText_text, mergeSort_hitLe_eq_of_perm isScore_of_mem_filterMap_hitOf?
    (nodup_map_id_filterMap_hitOf? distinct) (perm.symm.filterMap _)]
  exact rank_eq searchable' (trimmed query) least k

/-- A search for a text lists the best hits first. Every capability one of whose fields matches is
listed, with the greatest score of its fields and the first field that has it; no two hits are tied,
so the list does not depend on the order of the capabilities, and with a smaller limit it breaks off
earlier. A query that is too short, without the blanks around it, lists nothing. -/
theorem rankValue_characterized (distinct : (entries.map Entry.id).Nodup)
    (searchable : ∀ e ∈ entries, Searchable e.capability) (query : String) (least : Int) :
    ∃ ranked : List (Hit α),
      (∀ hit, hit ∈ ranked ↔ ∃ e ∈ entries, IsHit (trimmed query) e hit) ∧
      (∀ e ∈ entries, (∃ hit ∈ ranked, hit.id = e.id) ↔ ∃ candidate ∈ fields e,
        (fieldScore? (trimmed query) candidate.2 : Option α).isSome) ∧
      ranked.Pairwise Precedes ∧
      (∀ others : List Entry, others.Perm entries → ∀ k : Nat,
        rankValue { minQueryLength := least, maxResults := k } others (.text query) =
          .ok (if (trimmed query).toList.length < least then [] else ranked.take k)) ∧
      ∀ j k : Nat, j ≤ k → ∃ first all : List (Hit α), first <+: all ∧
        rankValue { minQueryLength := least, maxResults := j } entries (.text query) = .ok first ∧
        rankValue { minQueryLength := least, maxResults := k } entries (.text query) = .ok all := by
  refine ⟨(entries.filterMap (hitOf? (trimmed query))).mergeSort hitLe, ?_, ?_, ?_,
    fun others perm => rankValue_eq_of_perm distinct searchable query least perm, ?_⟩
  · intro hit
    rw [List.mem_mergeSort, mem_filterMap_hitOf?_iff]
  · intro e member
    simp only [List.mem_mergeSort]
    exact exists_hit_id_iff distinct member
  · exact pairwise_precedes_mergeSort distinct
  · intro j k le
    refine ⟨_, _, ?_, rankValue_eq_of_perm distinct searchable query least (.refl entries) j,
      rankValue_eq_of_perm distinct searchable query least (.refl entries) k⟩
    split_ifs
    · exact List.prefix_refl _
    · exact List.take_prefix_take_left le

end Ranked

def describedEntry (id name description : String) : Entry where
  capability := {
    id := id
    name := name
    usageCount := 1
    successRate := 1
    pagerank := 0
    lastUsed := none
    communityId := none
    description := .text description
    fqdn := .null
    codeSnippet := .null
    parentId := none }
  level := 0
  tools := []

theorem rankValue_characterized_of_read :
    let entries := [describedEntry "b" "write" "writes a file", describedEntry "a" "read" ""]
    ∃ ranked : List (Hit Float), (∃ hit ∈ ranked, hit.id = "a") ∧
      ∀ others : List Entry, others.Perm entries → ∀ k : Nat,
        rankValue { minQueryLength := 2, maxResults := k } others (.text " read ") =
          .ok (ranked.take k) := by
  intro entries
  have distinct : (entries.map Entry.id).Nodup := by decide
  have searchable : ∀ e ∈ entries, Searchable e.capability := by decide
  obtain ⟨ranked, -, present, -, run, -⟩ :=
    rankValue_characterized (α := Float) distinct searchable " read " 2
  refine ⟨ranked, ?_, fun others perm k => ?_⟩
  · exact (present (describedEntry "a" "read" "") (by simp [entries])).mpr
      ⟨(.name, .text "read"), List.mem_cons_self, by decide +kernel⟩
  · rw [run others perm k, if_neg (by decide +kernel)]

end CapabilityAtlas.Search
