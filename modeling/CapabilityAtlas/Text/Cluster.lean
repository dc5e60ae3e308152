import CapabilityAtlas.Text.ClusterBreak

set_option autoImplicit false
set_option relaxedAutoImplicit false

/-!
Text as a reader sees it: a base character with its marks is one unit, and so are a pair of
regional indicators, a Hangul syllable, a joined pictograph and a conjunct of consonants. The
distance of two texts counts the units in which they differ.
-/

namespace CapabilityAtlas.Text

inductive ClusterClass
  | control | extend | joiner | spacing | prepended | regional | leading | vowel | trailing
  | syllable | closedSyllable | pictograph | other
  deriving DecidableEq, Repr

open ClusterBreak in
/-- The class of a character; Hangul syllables with and without a final consonant follow from
their number. -/
def clusterClass (c : Char) : ClusterClass :=
  let code := c.toNat
  if code < 0x7F then (if code < 0x20 then .control else .other)
  else if code = 0x200D then .joiner
  else if 0x1F1E6 ≤ code ∧ code ≤ 0x1F1FF then .regional
  else if 0xAC00 ≤ code ∧ code ≤ 0xD7A3 then
    if (code - 0xAC00) % 28 = 0 then .syllable else .closedSyllable
  else if control.covers c then .control
  else if ClusterBreak.extend.covers c then .extend
  else if spacingMark.covers c then .spacing
  else if ClusterBreak.prepended.covers c then .prepended
  else if ClusterBreak.leading.covers c then .leading
  else if ClusterBreak.vowel.covers c then .vowel
  else if ClusterBreak.trailing.covers c then .trailing
  else if pictographic.covers c then .pictograph
  else .other

/-- How far a chain of joined characters has come: its opening character is read, or also the
sign that will join the next one. -/
inductive Chain
  | idle | opened | linked
  deriving DecidableEq, Repr

/-- What the end of a unit decides about the next character: its last class, the parity of the
regional indicators that end it, and the pictograph and consonant chains that are open. -/
structure ClusterEnd where
  last : ClusterClass
  oddRegional : Bool
  pictograph : Chain
  conjunct : Chain

open ClusterBreak in
/-- The end of a unit after one more character; `none` stands for the start of a unit. -/
def ClusterEnd.next (before : Option ClusterEnd) (c : Char) : ClusterEnd :=
  let kind := clusterClass c
  let regional := kind = .regional
  let pictograph : Chain :=
    if kind = .pictograph then .opened
    else match before with
      | some e =>
        if e.pictograph = .opened ∧ kind = .extend then .opened
        else if e.pictograph = .opened ∧ kind = .joiner then .linked
        else .idle
      | none => .idle
  let conjunct : Chain :=
    if c.toNat < 0x300 then .idle
    else if conjunctConsonant.covers c then .opened
    else match before with
      | some e =>
        if e.conjunct = .idle then .idle
        else if conjunctLinker.covers c then .linked
        else if conjunctExtend.covers c then e.conjunct
        else .idle
      | none => .idle
  { last := kind
    oddRegional := regional && !((before.map ClusterEnd.oddRegional).getD false)
    pictograph := pictograph
    conjunct := conjunct }

def ClusterEnd.takes (e : ClusterEnd) (c : Char) : Bool :=
  let kind := clusterClass c
  if e.last = .control ∨ kind = .control then false
  else if e.last = .leading ∧
      (kind = .leading ∨ kind = .vowel ∨ kind = .syllable ∨ kind = .closedSyllable) then true
  else if (e.last = .syllable ∨ e.last = .vowel) ∧ (kind = .vowel ∨ kind = .trailing) then true
  else if (e.last = .closedSyllable ∨ e.last = .trailing) ∧ kind = .trailing then true
  else if kind = .extend ∨ kind = .joiner ∨ kind = .spacing ∨ e.last = .prepended then true
  else if e.conjunct = .linked ∧ ClusterBreak.conjunctConsonant.covers c then true
  else if e.pictograph = .linked ∧ kind = .pictograph then true
  else e.oddRegional && decide (kind = .regional)

/-- Cuts the rest of a text into units; `unit` is the open one, reversed, and `e` its end. A line
feed continues a carriage return. -/
def clustersFrom (unit : List Char) (e : ClusterEnd) : List Char → List (List Char)
  | [] => [unit.reverse]
  | c :: rest =>
    if e.takes c ∨ (unit.head? = some '\r' ∧ c = '\n') then
      clustersFrom (c :: unit) (ClusterEnd.next (some e) c) rest
    else unit.reverse :: clustersFrom [c] (ClusterEnd.next none c) rest

def clusters : List Char → List (List Char)
  | [] => []
  | c :: rest => clustersFrom [c] (ClusterEnd.next none c) rest

/-- The places at which two lists differ, counting every place that only one of them has. -/
def differences : List (List Char) → List (List Char) → Nat
  | [], right => right.length
  | left, [] => left.length
  | a :: left, b :: right => (if a = b then 0 else 1) + differences left right

/-- The number of units in which two texts differ. -/
def distance (left right : List Char) : Nat := differences (clusters left) (clusters right)

end CapabilityAtlas.Text
