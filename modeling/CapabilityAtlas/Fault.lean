import CapabilityAtlas.Numeral.Shortest

set_option autoImplicit false
set_option relaxedAutoImplicit false

/-!
Why a request can fail. A snapshot is rejected with the place and the defect of its first bad
entry; the other causes belong to values that cannot be converted and to settings out of range.
-/

namespace CapabilityAtlas

open CapabilityAtlas.Numeral

inductive Place
  | whole | nodes | edges | node (index : Nat) | edge (index : Nat)
  deriving DecidableEq, Repr

/-- What is wrong there; kinds and types are given by their names. -/
inductive Defect
  | notObject (kind : String)
  | notList
  | entryNotObject (kind : String)
  | missing (field : String)
  | notText (field kind : String)
  | unknownType (quoted : String)
  deriving DecidableEq, Repr

inductive Fault
  | rejected (place : Place) (defect : Defect)
  | unsupportedKind
  | absentKey
  | absentMember
  | absentElement
  | overflow
  | notNumeric (quoted : String)
  | tooManyDigits
  | unreadable
  | emptyPalette
  | canvasSize (width height : Float)
  | negativeSpacing
  | cardWidth (width : Float)
  | containerWidth (width : Float)
  | undefinedCount
  | negativeCount
  deriving DecidableEq, Repr

def Place.path? : Place → Option String
  | .whole => none
  | .nodes => some "nodes"
  | .edges => some "edges"
  | .node i => some ("nodes[" ++ integerText i ++ "]")
  | .edge i => some ("edges[" ++ integerText i ++ "]")

def Defect.message : Defect → String
  | .notObject kind => "snapshot must be an object, got " ++ kind
  | .notList => "must be a list"
  | .entryNotObject kind => "expected an object, got " ++ kind
  | .missing field => "missing required field '" ++ field ++ "'"
  | .notText field kind => "field '" ++ field ++ "' must be a string, got " ++ kind
  | .unknownType quoted =>
    "unknown node type " ++ quoted ++ " (expected 'tool' or 'capability')"

def Fault.message? : Fault → Option String
  | .rejected place defect =>
    some (match place.path? with
      | some path => path ++ ": " ++ defect.message
      | none => defect.message)
  | .notNumeric quoted => some ("could not convert string to float: " ++ quoted)
  | .tooManyDigits => some ("Exceeds the limit (4300 digits) for integer string conversion; " ++
      "use sys.set_int_max_str_digits() to increase the limit")
  | .emptyPalette => some "Palette needs at least one color"
  | .canvasSize width height =>
    some ("Canvas size must be positive, got " ++ shortest width ++ "x" ++ shortest height)
  | .negativeSpacing => some "Angular padding must be non-negative"
  | .cardWidth width => some ("card_width must be positive, got " ++ shortest width)
  | .containerWidth width =>
    some ("container_width must be non-negative, got " ++ shortest width)
  | .undefinedCount => some "cannot convert float NaN to integer"
  | .unsupportedKind | .absentKey | .absentMember | .absentElement | .overflow => none
  | .unreadable | .negativeCount => none

/-- A run of two steps that succeeds has a first result and goes on from it. -/
theorem Fault.ok_of_bind {α β : Type} {first : Except Fault α} {next : α → Except Fault β}
    {result : β} (run : first >>= next = .ok result) :
    ∃ made, first = .ok made ∧ next made = .ok result := by
  cases first with
  | error fault => simp [Bind.bind, Except.bind] at run
  | ok made => exact ⟨made, rfl, run⟩

end CapabilityAtlas
