import CapabilityAtlas.Neighborhood
import CapabilityAtlas.Proofs.Keyed
import CapabilityAtlas.Proofs.Numeral.Binary
import CapabilityAtlas.Proofs.Order
import CapabilityAtlas.Proofs.Resolution

set_option autoImplicit false
set_option relaxedAutoImplicit false

/-!
The depth of a neighborhood as a number: how many hops it allows under a cap, and that allowing more
depth never allows fewer hops. Raw values are read as exactly that number of hops.
-/

namespace CapabilityAtlas

open CapabilityAtlas.Numeral
open Float.Model (UnpackedFloat)

/-- What a depth can be: a number, an infinity, or undefined. -/
inductive Depth
  | number (q : ℚ) | unbounded | belowAll | undefined

namespace Depth

def ofUnpacked : UnpackedFloat → Depth
  | .infinity .positive => .unbounded
  | .infinity .negative => .belowAll
  | .notANumber => .undefined
  | .zero _ => .number 0
  | .finite .positive mantissa exponent _ => .number (mantissa * 2 ^ exponent)
  | .finite .negative mantissa exponent _ => .number (-(mantissa * 2 ^ exponent))

/-- The depth that a raw value stands for; null leaves it open. -/
def ofPayload? : Payload → Option Depth
  | .null => some .unbounded
  | .bool b => some (.number (if b then 1 else 0))
  | .int n => some (.number n)
  | .float x => some (ofUnpacked x.toModel.unpack)
  | _ => none

/-- The number of hops that a depth allows under a cap. Fractions of a hop are cut off, and depths
that are not positive allow none. -/
def hops (cap : Int) : Depth → Int
  | .number q => if q ≤ 0 then 0 else min ⌊q⌋ cap
  | .unbounded => cap
  | .belowAll | .undefined => 0

/-- Whether a depth is at most another one. An undefined depth compares with none. -/
inductive AtMost : Depth → Depth → Prop
  | numbers {q r : ℚ} : q ≤ r → AtMost (.number q) (.number r)
  | top {d : Depth} : d ≠ .undefined → AtMost d .unbounded
  | bottom {d : Depth} : d ≠ .undefined → AtMost .belowAll d

variable {cap : Int} {d e : Depth}

private theorem hops_nonneg (capped : 0 ≤ cap) (d : Depth) : 0 ≤ d.hops cap := by
  cases d with
  | number q =>
    rw [hops]
    split
    · exact le_refl 0
    · rename_i positive
      exact le_min (Int.floor_nonneg.mpr (not_le.mp positive).le) capped
  | unbounded => exact capped
  | belowAll => exact le_refl 0
  | undefined => exact le_refl 0

private theorem hops_le (capped : 0 ≤ cap) (d : Depth) : d.hops cap ≤ cap := by
  cases d with
  | number q =>
    rw [hops]
    split
    · exact capped
    · exact min_le_right _ _
  | unbounded => exact le_refl cap
  | belowAll => exact capped
  | undefined => exact capped

private theorem AtMost.hops_le_hops (order : AtMost d e) (capped : 0 ≤ cap) :
    d.hops cap ≤ e.hops cap := by
  cases order with
  | numbers below =>
    rename_i q r
    by_cases first : q ≤ 0
    · rw [hops, if_pos first]
      exact hops_nonneg capped _
    · have second : ¬ r ≤ 0 := fun small => first (below.trans small)
      rw [hops, hops, if_neg first, if_neg second]
      exact min_le_min_right cap (Int.floor_mono below)
  | top _ => exact hops_le capped d
  | bottom _ => exact hops_nonneg capped e

end Depth

namespace Reach

theorem limit_le (reach : Reach) (cap : Int) : reach.limit cap ≤ max cap 0 := by
  cases reach with
  | everything => exact le_max_left cap 0
  | nothing => exact le_max_right cap 0
  | hops n => exact (min_le_right _ cap).trans (le_max_left cap 0)

private theorem limit_ofInt (n cap : Int) : (ofInt n).limit cap = (Depth.number n).hops cap := by
  rw [ofInt, Depth.hops, Int.floor_intCast]
  by_cases below : n ≤ 0
  · rw [if_pos below, if_pos (Int.cast_nonpos.mpr below)]
    rfl
  · rw [if_neg below, if_neg (Int.cast_nonpos.not.mpr below), limit,
      Int.toNat_of_nonneg (not_le.mp below).le]

private theorem limit_ofFloat (x : Float) (cap : Int) :
    (ofFloat x).limit cap = (Depth.ofUnpacked x.toModel.unpack).hops cap := by
  have positive : x > 0 ↔ UnpackedFloat.lt (.zero .positive) x.toModel.unpack := decide_eq_true_iff
  simp only [ofFloat, positive, ofBinary_eq]
  cases x.toModel.unpack with
  | infinity sign => cases sign <;> rfl
  | notANumber => rfl
  | zero sign =>
    have level : (Depth.number 0).hops cap = 0 := by rw [Depth.hops, if_pos (le_refl 0)]
    cases sign <;> exact level.symm
  | finite sign mantissa exponent nonzero =>
    have above : (0 : ℚ) < mantissa * 2 ^ exponent :=
      mul_pos (Nat.cast_pos.mpr nonzero) (zpow_pos two_pos _)
    cases sign with
    | negative =>
      have value : Depth.ofUnpacked (.finite .negative mantissa exponent nonzero) =
        .number (-(mantissa * 2 ^ exponent)) := rfl
      rw [value, Depth.hops, if_pos (neg_neg_of_pos above).le]
      rfl
    | positive =>
      have value : Depth.ofUnpacked (.finite .positive mantissa exponent nonzero) =
        .number (mantissa * 2 ^ exponent) := rfl
      have ahead : UnpackedFloat.lt (.zero .positive)
          (.finite .positive mantissa exponent nonzero) = true := rfl
      have unsigned : (UnpackedFloat.Sign.positive == .negative) = false := rfl
      rw [if_pos ahead, Exact.ofUnpacked_finite, unsigned, truncated?_finite]
      dsimp only
      rw [value, Depth.hops, if_neg (not_le.mpr above), limit, Int.toNat_of_nonneg]
      exact Int.floor_nonneg.mpr above.le

private theorem exists_ofPayload_eq_ok {value : Payload} {depth : Depth}
    (read : Depth.ofPayload? value = some depth) :
    ∃ reach, ofPayload value = .ok reach ∧ ∀ cap, reach.limit cap = depth.hops cap := by
  cases value with
  | null =>
    obtain rfl := Option.some.inj read
    exact ⟨_, rfl, fun _ => rfl⟩
  | bool b =>
    obtain rfl := Option.some.inj read
    have count : (if b then Reach.hops 1 else .nothing) = ofInt (if b then 1 else 0) := by
      cases b <;> rfl
    refine ⟨_, rfl, fun cap => ?_⟩
    rw [count, limit_ofInt]
    cases b <;> simp
  | int n =>
    obtain rfl := Option.some.inj read
    exact ⟨_, rfl, limit_ofInt n⟩
  | float x =>
    obtain rfl := Option.some.inj read
    exact ⟨_, rfl, limit_ofFloat x⟩
  | text s => simp [Depth.ofPayload?] at read
  | list items => simp [Depth.ofPayload?] at read
  | record fields => simp [Depth.ofPayload?] at read
  | stamp moment => simp [Depth.ofPayload?] at read

end Reach

end CapabilityAtlas

/-!
What a neighborhood consists of. A node is in it exactly if a walk of at most as many edges as the
depth allows joins it to the start, whatever the direction of the edges, and the edges in it are
exactly those between its nodes. So it grows with the depth, and two nodes are in each other's
neighborhoods or in neither.
-/

namespace CapabilityAtlas

/-- Whether an edge joins two nodes, in whichever direction it leads. -/
def Joined (edges : List Edge) (a b : String) : Prop :=
  ∃ e ∈ edges, e.source = a ∧ e.target = b ∨ e.target = a ∧ e.source = b

/-- Walks along edges in either direction, with their number of edges. -/
inductive Walk (edges : List Edge) : Nat → String → String → Prop
  | stay (a : String) : Walk edges 0 a a
  | go {n : Nat} {a b c : String} :
      Joined edges a b → Walk edges n b c → Walk edges (n + 1) a c

variable {edges : List Edge} {n : Nat} {a b c : String}

private theorem Joined.symm (joined : Joined edges a b) : Joined edges b a := by
  obtain ⟨e, member, ⟨source, target⟩ | ⟨target, source⟩⟩ := joined
  · exact ⟨e, member, Or.inr ⟨target, source⟩⟩
  · exact ⟨e, member, Or.inl ⟨source, target⟩⟩

namespace Walk

private theorem append_edge (walk : Walk edges n a b) (joined : Joined edges b c) :
    Walk edges (n + 1) a c := by
  induction walk with
  | stay a => exact go joined (stay c)
  | go first _ ih => exact go first (ih joined)

private theorem symm (walk : Walk edges n a b) : Walk edges n b a := by
  induction walk with
  | stay a => exact stay a
  | go first _ ih => exact ih.append_edge first.symm

private theorem mem_of_closed {seen : List String}
    (closed : ∀ a ∈ seen, ∀ b, Joined edges a b → b ∈ seen)
    (walk : Walk edges n a b) (inside : a ∈ seen) : b ∈ seen := by
  induction walk with
  | stay a => exact inside
  | go first _ ih => exact ih (closed _ inside _ first)

end Walk

namespace Neighborhood

private theorem mem_adjacent : b ∈ adjacent edges a ↔ Joined edges a b := by
  simp only [adjacent, List.mem_flatMap, List.mem_append, Joined]
  refine exists_congr fun e => and_congr_right fun _ => or_congr ?_ ?_
  · split <;> simp_all [eq_comm]
  · split <;> simp_all [eq_comm]

instance decidableJoined : Decidable (Joined edges a b) := decidable_of_iff _ mem_adjacent

private theorem mem_found {seen : List String} :
    b ∈ found edges seen ↔ (∃ a ∈ seen, Joined edges a b) ∧ b ∉ seen := by
  simp [found, mem_firstOccurrences, mem_adjacent]

private theorem mem_of_joined_of_isEmpty {seen : List String}
    (closed : (found edges seen).isEmpty) :
    ∀ a ∈ seen, ∀ b, Joined edges a b → b ∈ seen := by
  intro a inside b joined
  by_contra outside
  have new : b ∈ found edges seen := mem_found.mpr ⟨⟨a, inside, joined⟩, outside⟩
  rw [List.isEmpty_iff.mp closed] at new
  exact List.not_mem_nil new

/-- A search for a number of rounds finds what is joined to its starts by a walk of at most as many
edges. -/
private theorem mem_within {hops : Nat} {seen : List String} :
    b ∈ within edges hops seen ↔ ∃ a ∈ seen, ∃ n ≤ hops, Walk edges n a b := by
  induction hops generalizing seen with
  | zero =>
    constructor
    · intro inside
      exact ⟨b, inside, 0, le_refl 0, Walk.stay b⟩
    · rintro ⟨a, inside, n, few, walk⟩
      obtain rfl := Nat.le_zero.mp few
      cases walk
      exact inside
  | succ hops ih =>
    simp only [within]
    split
    · rename_i closed
      constructor
      · intro inside
        exact ⟨b, inside, 0, Nat.zero_le _, Walk.stay b⟩
      · rintro ⟨a, inside, n, -, walk⟩
        exact walk.mem_of_closed (mem_of_joined_of_isEmpty closed) inside
    · rw [ih]
      constructor
      · rintro ⟨a, inside, n, few, walk⟩
        rcases List.mem_append.mp inside with old | new
        · exact ⟨a, old, n, Nat.le_succ_of_le few, walk⟩
        · obtain ⟨⟨start, old, joined⟩, -⟩ := mem_found.mp new
          exact ⟨start, old, n + 1, Nat.succ_le_succ few, Walk.go joined walk⟩
      · rintro ⟨a, inside, n, few, walk⟩
        cases walk with
        | stay => exact ⟨b, List.mem_append_left _ inside, 0, Nat.zero_le _, Walk.stay b⟩
        | @go n _ next _ first rest =>
          refine ⟨next, ?_, n, Nat.le_of_succ_le_succ few, rest⟩
          by_cases old : next ∈ seen
          · exact List.mem_append_left _ old
          · exact List.mem_append_right _ (mem_found.mpr ⟨⟨a, inside, first⟩, old⟩)

private theorem nodup_within {hops : Nat} {seen : List String} (nodup : seen.Nodup) :
    (within edges hops seen).Nodup := by
  induction hops generalizing seen with
  | zero => exact nodup
  | succ hops ih =>
    simp only [within]
    split
    · exact nodup
    · refine ih (nodup.append (nodup_firstOccurrences _) fun a old new => ?_)
      exact (mem_found.mp new).2 old

/-- What a graph library documents of its breadth-first search from a node of the graph: it finds,
each once, the nodes that are joined to the start by a walk of at most as many edges. -/
structure IsBreadthFirst (search : GraphSearch) : Prop where
  nodup : ∀ {edges : List Edge} {start : String}, isKnown edges start →
    ∀ hops, (search edges hops start).Nodup
  mem_iff : ∀ {edges : List Edge} {start : String}, isKnown edges start →
    ∀ hops id, id ∈ search edges hops start ↔ ∃ n ≤ hops, Walk edges n start id

theorem isBreadthFirst_nearby : IsBreadthFirst nearby where
  nodup := fun _ _ => nodup_within (List.nodup_singleton _)
  mem_iff := fun _ hops id => by simp [nearby, mem_within]

/-- What the neighborhood of a node within some hops is. -/
structure Surrounds (edges : List Edge) (start : String) (hops : Int) (n : Neighborhood) :
    Prop where
  origin : n.start = some start
  bound : n.depth = hops
  nodup : n.reached.Nodup
  members : ∀ id, id ∈ n.reached ↔
    id ≠ start ∧ ∃ length : Nat, length ≤ hops ∧ Walk edges length start id
  inner : n.edges = if hops = 0 then [] else
    edges.filter (fun e => e.source ∈ start :: n.reached ∧ e.target ∈ start :: n.reached)

section Library

variable {search : GraphSearch} (documented : IsBreadthFirst search)

include documented

theorem surrounds_around {start : String} (known : isKnown edges start) {hops : Int}
    (nonneg : 0 ≤ hops) : Surrounds edges start hops (around search edges hops start) := by
  by_cases zero : hops = 0
  · rw [around, if_pos zero]
    refine ⟨rfl, zero.symm, List.nodup_nil, fun id => ?_, by rw [if_pos zero]⟩
    refine iff_of_false List.not_mem_nil ?_
    rintro ⟨other, length, few, walk⟩
    obtain rfl : length = 0 := by omega
    cases walk
    exact other rfl
  · have reached : ∀ id, id ∈ (around search edges hops start).reached ↔
        id ≠ start ∧ id ∈ search edges hops.toNat start := by
      intro id
      rw [around, if_neg zero]
      simp [Order.mem_sortTexts, and_comm]
    have members : ∀ id, id ∈ search edges hops.toNat start ↔
        id ∈ start :: (around search edges hops start).reached := by
      intro id
      rw [List.mem_cons, reached]
      by_cases same : id = start
      · have first : start ∈ search edges hops.toNat start :=
          (documented.mem_iff known _ _).mpr ⟨0, Nat.zero_le _, Walk.stay start⟩
        simp [same, first]
      · simp [same]
    constructor
    · rw [around, if_neg zero]
    · rw [around, if_neg zero]
    · rw [around, if_neg zero]
      exact (Order.perm_sortTexts _).nodup_iff.mpr ((documented.nodup known _).filter _)
    · intro id
      rw [reached, documented.mem_iff known]
      simp [Int.le_toNat nonneg]
    · rw [if_neg zero]
      simp only [← members]
      rw [around, if_neg zero]
      simp only [Bool.decide_and, List.contains_eq_mem]

private theorem exists_expandWith_eq_ok {cap : Int} (capped : 0 ≤ cap) {value : Payload}
    {depth : Depth} (read : Depth.ofPayload? value = some depth) {id start : String}
    (resolved : resolve edges id = some start) :
    ∃ n, expandWith search edges cap (.text id) value = .ok n ∧
      Surrounds edges start (depth.hops cap) n := by
  obtain ⟨reach, asked, limit⟩ := Reach.exists_ofPayload_eq_ok read
  refine ⟨around search edges (depth.hops cap) start, ?_, surrounds_around documented
    (isKnown_of_resolve resolved) (Depth.hops_nonneg capped depth)⟩
  have node : resolveValue edges (.text id) = .ok (some start) := congrArg Except.ok resolved
  rw [expandWith, asked, node, ← limit]
  rfl

end Library

namespace Surrounds

variable {hops hops' : Int} {start u v : String} {n m : Neighborhood}

private theorem reached_subset (small : Surrounds edges start hops n)
    (large : Surrounds edges start hops' m) (more : hops ≤ hops') : n.reached ⊆ m.reached := by
  intro id inside
  obtain ⟨other, length, few, walk⟩ := (small.members id).mp inside
  exact (large.members id).mpr ⟨other, length, few.trans more, walk⟩

private theorem edges_sublist (nonneg : 0 ≤ hops) (small : Surrounds edges start hops n)
    (large : Surrounds edges start hops' m) (more : hops ≤ hops') :
    n.edges.Sublist m.edges := by
  rw [small.inner, large.inner]
  by_cases zero : hops = 0
  · rw [if_pos zero]
    exact List.nil_sublist _
  · have nonzero' : hops' ≠ 0 := by omega
    rw [if_neg zero, if_neg nonzero']
    refine List.monotone_filter_right edges fun e => ?_
    have grown := List.cons_subset_cons start (reached_subset small large more)
    simp only [decide_eq_true_eq]
    exact fun both => ⟨grown both.1, grown both.2⟩

private theorem mem_reached_comm (first : Surrounds edges u hops n)
    (second : Surrounds edges v hops m) :
    v ∈ n.reached ↔ u ∈ m.reached := by
  rw [first.members, second.members]
  constructor
  · rintro ⟨apart, length, few, walk⟩
    exact ⟨apart.symm, length, few, walk.symm⟩
  · rintro ⟨apart, length, few, walk⟩
    exact ⟨apart.symm, length, few, walk.symm⟩

end Surrounds

section Expand

variable {cap : Int} {value : Payload} {depth : Depth}

/-- With every graph library that searches as documented, a neighborhood holds exactly what walks
within its depth reach. It grows with the depth, and of two nodes each is in the neighborhood of the
other or neither is. -/
theorem expandWith_walks {search : GraphSearch} (documented : IsBreadthFirst search)
    (capped : 0 ≤ cap) (read : Depth.ofPayload? value = some depth) :
    (∀ {id start : String}, resolve edges id = some start →
      ∃ n, expandWith search edges cap (.text id) value = .ok n ∧
        Surrounds edges start (depth.hops cap) n ∧
        ∀ {value' : Payload} {depth' : Depth}, Depth.ofPayload? value' = some depth' →
          depth.AtMost depth' → ∃ m, expandWith search edges cap (.text id) value' = .ok m ∧
            n.reached ⊆ m.reached ∧ n.edges.Sublist m.edges) ∧
    ∀ {u v : String}, isKnown edges u → isKnown edges v →
      ∃ n m, expandWith search edges cap (.text u) value = .ok n ∧
        expandWith search edges cap (.text v) value = .ok m ∧
        (v ∈ n.reached ↔ u ∈ m.reached) := by
  constructor
  · intro id start resolved
    obtain ⟨n, expanded, here⟩ := exists_expandWith_eq_ok documented capped read resolved
    refine ⟨n, expanded, here, fun read' order => ?_⟩
    obtain ⟨m, expanded', there⟩ := exists_expandWith_eq_ok documented capped read' resolved
    have more := order.hops_le_hops capped
    exact ⟨m, expanded', here.reached_subset there more,
      here.edges_sublist (Depth.hops_nonneg capped depth) there more⟩
  · intro u v known known'
    obtain ⟨n, expanded, here⟩ :=
      exists_expandWith_eq_ok documented capped read (resolve_of_isKnown known)
    obtain ⟨m, expanded', there⟩ :=
      exists_expandWith_eq_ok documented capped read (resolve_of_isKnown known')
    exact ⟨n, m, expanded, expanded', here.mem_reached_comm there⟩

/-- A neighborhood holds exactly what walks within its depth reach. It grows with the depth, and of
two nodes each is in the neighborhood of the other or neither is. -/
theorem expandValue_walks (capped : 0 ≤ cap) (read : Depth.ofPayload? value = some depth) :
    (∀ {id start : String}, resolve edges id = some start →
      ∃ n, expandValue edges cap (.text id) value = .ok n ∧
        Surrounds edges start (depth.hops cap) n ∧
        ∀ {value' : Payload} {depth' : Depth}, Depth.ofPayload? value' = some depth' →
          depth.AtMost depth' → ∃ m, expandValue edges cap (.text id) value' = .ok m ∧
            n.reached ⊆ m.reached ∧ n.edges.Sublist m.edges) ∧
    ∀ {u v : String}, isKnown edges u → isKnown edges v →
      ∃ n m, expandValue edges cap (.text u) value = .ok n ∧
        expandValue edges cap (.text v) value = .ok m ∧ (v ∈ n.reached ↔ u ∈ m.reached) :=
  expandWith_walks isBreadthFirst_nearby capped read

end Expand

/-- A circle of two nodes, one of them with an edge to itself, and a way out of it against the
direction of its first edge. -/
def loops : List Edge :=
  [("a", "b"), ("b", "a"), ("b", "b"), ("c", "b"), ("c", "d")].map fun ends =>
    { source := ends.1, target := ends.2, relation := .contains, weight := none
      observedCount := none }

theorem expandValue_walks_of_loop : (0 : Int) ≤ 10 ∧
    Depth.ofPayload? (.float 2.5) = some (.number (5 / 2)) ∧ resolve loops "a__x" = some "a" ∧
    ∃ n, expandValue loops 10 (.text "a__x") (.float 2.5) = .ok n ∧ Surrounds loops "a" 2 n ∧
      "c" ∈ n.reached ∧ n.edges.length = 4 := by
  have capped : (0 : Int) ≤ 10 := by decide
  have value : Depth.ofPayload? (.float 2.5) =
    some (.number ((5629499534213120 : ℕ) * 2 ^ (-51 : ℤ))) := rfl
  have read : Depth.ofPayload? (.float 2.5) = some (.number (5 / 2)) := by
    rw [value]
    norm_num
  have resolved : resolve loops "a__x" = some "a" := by decide +kernel
  have two : (Depth.number (5 / 2)).hops 10 = 2 := by
    norm_num [Depth.hops, Int.floor_eq_iff]
  obtain ⟨n, expanded, here, -⟩ := (expandValue_walks capped read).1 resolved
  rw [two] at here
  refine ⟨capped, read, resolved, n, expanded, here, ?_, ?_⟩
  · have first : Joined loops "a" "b" := by decide +kernel
    have second : Joined loops "b" "c" := by decide +kernel
    exact (here.members "c").mpr ⟨by decide, 2, le_refl 2, .go first (.go second (.stay "c"))⟩
  · have count : (expandValue loops 10 (.text "a__x") (.float 2.5)).map (fun n => n.edges.length) =
        .ok 4 := by decide +kernel
    rw [expanded] at count
    exact Except.ok.inj count

end Neighborhood

end CapabilityAtlas
