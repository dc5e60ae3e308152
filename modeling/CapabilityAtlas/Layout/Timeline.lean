import CapabilityAtlas.Fault
import CapabilityAtlas.Hierarchy.Build
import CapabilityAtlas.Keyed
import CapabilityAtlas.Numeral.Binary
import CapabilityAtlas.Settings.Default

set_option autoImplicit false
set_option relaxedAutoImplicit false

/-!
Whole quotients: how often one length fits into another one. Of binary numbers the exact remainder
is taken away before the division, so that a rounded quotient never counts too much.
-/

namespace CapabilityAtlas.Layout

open CapabilityAtlas.Numeral

/-- Numbers of which one can say how often the second fits into the first. -/
class WholeQuotient (α : Type) where
  wholeQuotient : α → α → Except Fault Int

/-- The nearest whole number below a number that is not negative, or the one above if that is
nearer; a number without end has none. -/
def nearestWhole (x : Float) : Except Fault Int :=
  match (Exact.ofBinary x).truncated? with
  | some n => .ok (if x - Float.ofInt n > 0.5 then n + 1 else n)
  | none => .error .overflow

def binaryRemainder (m : Nat) (e : Int) (n : Nat) (f : Int) : Float :=
  let unit := min e f
  ofDyadic ((m * Nat.pow 2 (e - unit).toNat) % (n * Nat.pow 2 (f - unit).toNat)) unit

/-- How often a positive number fits into one that is not negative. -/
def binaryQuotient (x y : Float) : Except Fault Int :=
  match Exact.ofBinary x, Exact.ofBinary y with
  | .finite _ m e, .finite _ n f => nearestWhole ((x - binaryRemainder m e n f) / y)
  | .finite .., .infinite _ => .ok 0
  | _, _ => .error .undefinedCount

instance binaryWholeQuotient : WholeQuotient Float := ⟨binaryQuotient⟩

end CapabilityAtlas.Layout

/-!
Timelines: capabilities in buckets by the age of their last use, the most recent first, as cards in
the rows of a grid. Every card holds a small grid of its tools.
-/

namespace CapabilityAtlas.Layout

open CapabilityAtlas.Calendar CapabilityAtlas.Hierarchy

inductive Bucket
  | today | thisWeek | thisMonth | older
  deriving DecidableEq, Repr

namespace Bucket

def all : List Bucket := [today, thisWeek, thisMonth, older]

def key : Bucket → String
  | today => "today"
  | thisWeek => "this_week"
  | thisMonth => "this_month"
  | older => "older"

def label : Bucket → String
  | today => "Today"
  | thisWeek => "This week"
  | thisMonth => "This month"
  | older => "Older"

/-- The days below which an age belongs to a bucket; the last bucket has no limit. -/
def days? : Bucket → Option Nat
  | today => some 1
  | thisWeek => some 7
  | thisMonth => some 30
  | older => none

def takes (age : Int) (b : Bucket) : Bool :=
  match b.days? with
  | some days => age < Int.ofNat (days * dayTicks)
  | none => true

/-- The first bucket that takes the age of an instant; what was never used is oldest. -/
def ofLastUse (now : Int) : Option Instant → Bucket
  | some i => (all.find? (takes (now - Int.ofNat i.ticks))).getD older
  | none => older

end Bucket

structure TimelineConfig (α : Type) where
  containerWidth : α
  style : TimelineStyle α
  topLevelOnly : Bool

def TimelineConfig.check (c : TimelineConfig Float) : Except Fault Unit :=
  if c.style.cardWidth ≤ 0 then .error (.cardWidth c.style.cardWidth)
  else if c.containerWidth < 0 then .error (.containerWidth c.containerWidth)
  else .ok ()

def TimelineConfig.columns {α : Type} [WholeQuotient α] (c : TimelineConfig α) :
    Except Fault Nat := do
  return (max 1 (← WholeQuotient.wholeQuotient c.containerWidth c.style.cardWidth)).toNat

structure GridPosition (α : Type) where
  x : α
  y : α
  col : Nat
  row : Nat

structure Card (α : Type) where
  tree : Tree
  bucket : Bucket
  position : GridPosition α
  tools : Keyed (GridPosition α)

structure Separator (α : Type) where
  bucket : Bucket
  y : α

structure Timeline (α : Type) where
  cards : List (Card α)
  separators : List (Separator α)
  buckets : List (Bucket × List String)
  height : α

namespace Card

variable {α : Type}

def id (c : Card α) : String := c.tree.id

end Card

namespace Timeline

variable {α : Type}

def positions (line : Timeline α) : Keyed (α × α) :=
  Keyed.ofPairs (line.cards.flatMap (fun c =>
    (c.id, c.position.x, c.position.y) :: c.tools.map (fun tool => (tool.1, tool.2.x, tool.2.y))))

def card? (line : Timeline α) (id : String) : Option (Card α) :=
  line.cards.find? (fun c => c.id = id)

end Timeline

/-- The last use of a capability as a number, that of one never used being the start of time. -/
def lastUseTicks (t : Tree) : Nat :=
  match t.entry.capability.lastUsed with
  | some i => i.ticks
  | none => 0

def recencyLe (a b : Tree) : Bool :=
  lastUseTicks b < lastUseTicks a ||
    (lastUseTicks a = lastUseTicks b && Order.pairLe (a.name, a.id) (b.name, b.id))

def isSelected (filter : Option (List String)) (id : String) : Bool :=
  match filter with
  | some ids => ids.contains id
  | none => true

/-- The capabilities of a timeline, the most recent first. -/
def candidates (h : Hierarchy) (topLevelOnly : Bool) (filter : Option (List String)) : List Tree :=
  let trees := if topLevelOnly then h.roots else h.walk
  (trees.filter (fun t => isSelected filter t.id)).mergeSort recencyLe

def ceilSqrt (n : Nat) : Nat := ((List.range n).find? (fun k => n ≤ k * k)).getD n

def toolsPerRow (count : Nat) : Nat := max 1 (ceilSqrt count)

variable {α : Type} [Add α] [Sub α] [Mul α] [NatCast α]

def cell (columns : Nat) (x y width height : α) (index : Nat) : GridPosition α where
  x := x + ((index % columns : Nat) : α) * width
  y := y + ((index / columns : Nat) : α) * height
  col := index % columns
  row := index / columns

def toolCells (style : TimelineStyle α) (x y : α) (tools : List ToolInstance) :
    Keyed (GridPosition α) :=
  Keyed.ofPairs (tools.mapIdx (fun index i =>
    (i.id, cell (toolsPerRow tools.length) (x + style.toolOffsetX) (y + style.toolOffsetY)
      style.toolSpacing style.toolSpacing index)))

def card (style : TimelineStyle α) (columns : Nat) (bucket : Bucket) (y : α) (index : Nat)
    (t : Tree) : Card α :=
  let position := cell columns style.marginX y style.cardWidth style.rowHeight index
  { tree := t
    bucket := bucket
    position := position
    tools := toolCells style position.x position.y t.entry.tools }

def rowCount (count columns : Nat) : Nat := (count + columns - 1) / columns

def addBucket (style : TimelineStyle α) (columns : Nat) (line : Timeline α)
    (group : Bucket × List Tree) : Timeline α :=
  let (bucket, members) := group
  if members.isEmpty then line
  else
    { cards := line.cards ++ members.mapIdx (card style columns bucket line.height)
      separators := line.separators ++
        [{ bucket := bucket, y := line.height - style.separatorOffset }]
      buckets := line.buckets ++ [(bucket, members.map Tree.id)]
      height := line.height +
        (((rowCount members.length columns : Nat) : α) * style.rowHeight + style.groupSpacing) }

def grouped (now : Int) (trees : List Tree) : List (Bucket × List Tree) :=
  Bucket.all.map (fun b =>
    (b, trees.filter (fun t => Bucket.ofLastUse now t.entry.capability.lastUsed = b)))

def timelineOf (style : TimelineStyle α) (columns : Nat) (now : Int) (trees : List Tree) :
    Timeline α :=
  (grouped now trees).foldl (addBucket style columns)
    { cards := [], separators := [], buckets := [], height := style.baseY }

def timeline [WholeQuotient α] (h : Hierarchy) (c : TimelineConfig α) (now : Int)
    (filter : Option (List String)) : Except Fault (Timeline α) := do
  return timelineOf c.style (← c.columns) now (candidates h c.topLevelOnly filter)

def checkedTimeline (h : Hierarchy) (c : TimelineConfig Float) (now : Int)
    (filter : Option (List String)) : Except Fault (Timeline Float) := do
  c.check
  timeline h c now filter

end CapabilityAtlas.Layout
