import CapabilityAtlas.Fault
import CapabilityAtlas.Payload
import CapabilityAtlas.Scalar
import CapabilityAtlas.Text.Casing
import CapabilityAtlas.Text.Character
import CapabilityAtlas.Text.Cluster

set_option autoImplicit false
set_option relaxedAutoImplicit false

/-!
How well a query matches a text. Both are lowercased, with underscores and hyphens read as spaces.
An equal text scores one and a text that contains the query nine tenths; otherwise every word of the
query has to be found, exactly, as a beginning or with a typo, and the score is the mean.
-/

namespace CapabilityAtlas.Search

open CapabilityAtlas.Text

inductive Rung
  | contained | affix | typo
  deriving DecidableEq, Repr

def Rung.score {α : Type} [NatCast α] [Div α] : Rung → α
  | .contained => Scalar.ratio 9 10
  | .affix => Scalar.ratio 7 10
  | .typo => Scalar.ratio 1 2

def normalize (cs : List Char) : List Char :=
  (lower cs).map (fun c => if c = '_' ∨ c = '-' then ' ' else c)

def normalizeValue : Payload → Except Fault (List Char)
  | .text s => .ok (normalize s.toList)
  | _ => .error .absentMember

/-- How a text library counts the places at which two words differ. -/
class WordDistance where
  distance : List Char → List Char → Nat

instance clusterDistance : WordDistance := ⟨Text.distance⟩

/-- A word of at least four characters, off by at most two in length and in its characters. -/
def isTypo [WordDistance] (targetWord queryWord : List Char) : Bool :=
  targetWord.length ≤ queryWord.length + 2 && queryWord.length ≤ targetWord.length + 2 &&
    4 ≤ queryWord.length && WordDistance.distance targetWord queryWord ≤ 2

def isAffix (targetWord queryWord : List Char) : Bool :=
  queryWord.isPrefixOf targetWord || targetWord.isPrefixOf queryWord

def rung? [WordDistance] (target queryWord : List Char) : Option Rung :=
  if occursIn queryWord target then some .contained
  else if (words target).any (isAffix · queryWord) then some .affix
  else if (words target).any (isTypo · queryWord) then some .typo
  else none

/-- The words of a query that count; a single character does not. -/
def queryWords (query : List Char) : List (List Char) :=
  (words query).filter (fun word => 1 < word.length)

variable {α : Type}

/-- The mean of some scores, summed in their order. -/
def mean [Add α] [Div α] [NatCast α] (scores : List α) : α :=
  scores.foldl (fun sum score => sum + score) ((0 : Nat) : α) / (scores.length : α)

def scoreNormal? [WordDistance] [Add α] [Div α] [NatCast α] (target query : List Char) :
    Option α :=
  if target.all isBlank || query.all isBlank then none
  else if target = query then some ((1 : Nat) : α)
  else if occursIn query target then some Rung.contained.score
  else if (queryWords query).isEmpty then none
  else ((queryWords query).mapM (rung? target)).map (fun rungs => mean (rungs.map Rung.score))

def score? [WordDistance] [Add α] [Div α] [NatCast α] (target query : List Char) :
    Option α :=
  scoreNormal? (normalize target) (normalize query)

/-- The score of a raw query against a raw value; what is not given never matches. -/
def scoreValue? [WordDistance] [Add α] [Div α] [NatCast α] (target query : Payload) :
    Except Fault (Option α) :=
  if !target.isGiven || !query.isGiven then .ok none
  else match target, query with
    | .text t, .text q => .ok (score? t.toList q.toList)
    | _, _ => .error .absentMember

end CapabilityAtlas.Search

/-!
Grades of a query against a text, found word by word. For a word of the query the words of the text
are tried one after the other: one that begins with it, or with which it begins, ends the search,
while a typo is kept and the search goes on. A text does not match where a word is left at zero.
-/

namespace CapabilityAtlas.Search

open CapabilityAtlas.Text

/-- Whether a text matches, and how well; zero if it does not. -/
structure Grade (α : Type) where
  matched : Bool
  score : α

variable {α : Type} [NatCast α]

def Grade.miss : Grade α := { matched := false, score := ((0 : Nat) : α) }

def Grade.ofScore? : Option α → Grade α
  | some score => { matched := true, score := score }
  | none => .miss

variable [Div α]

/-- The score of a word of a query after further words of a text, with the best one so far. -/
def scanWords [WordDistance] (queryWord : List Char) (best : α) : List (List Char) → α
  | [] => best
  | word :: rest =>
    if isAffix word queryWord then Rung.affix.score
    else scanWords queryWord (if isTypo word queryWord then Rung.typo.score else best) rest

def wordScore [WordDistance] (target queryWord : List Char) : α :=
  if occursIn queryWord target then Rung.contained.score
  else scanWords queryWord ((0 : Nat) : α) (words target)

def gradeNormal [WordDistance] [Add α] [LT α] [DecidableLT α] (target query : List Char) :
    Grade α :=
  if target.all isBlank || query.all isBlank then .miss
  else if target = query then { matched := true, score := ((1 : Nat) : α) }
  else if occursIn query target then { matched := true, score := Rung.contained.score }
  else if (queryWords query).isEmpty then .miss
  else
    let scores := (queryWords query).map (wordScore target)
    if scores.all (fun score => ((0 : Nat) : α) < score) then
      { matched := true, score := mean scores }
    else .miss

def grade [WordDistance] [Add α] [LT α] [DecidableLT α] (target query : String) : Grade α :=
  gradeNormal (normalize target.toList) (normalize query.toList)

end CapabilityAtlas.Search
