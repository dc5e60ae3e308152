import CapabilityAtlas.Keyed
import CapabilityAtlas.Numeral.Reading
import CapabilityAtlas.Payload.Conversion
import CapabilityAtlas.Settings.Default

set_option autoImplicit false
set_option relaxedAutoImplicit false

/-!
Settings from the environment and from arguments. An argument wins over a variable, a variable over
the default, and names ignore case. Every setting that cannot be read is reported, and so is every
argument that is no setting.
-/

namespace CapabilityAtlas.Settings

open CapabilityAtlas.Numeral CapabilityAtlas.Text

inductive Value
  | whole (value : Int)
  | real (value : Float)

def entries (s : Settings Float) : List (String × Value) :=
  [("neighborhood_max_hops", .whole s.maxHops),
    ("radial_tension", .real s.radial.tension),
    ("radial_margin", .real s.radial.margin),
    ("radial_min_radius", .real s.radial.minRadius),
    ("radial_capability_ratio", .real s.radial.capabilityRatio),
    ("radial_tool_padding", .real s.radial.toolPadding),
    ("radial_server_gap", .real s.radial.serverGap),
    ("radial_capability_padding", .real s.radial.capabilityPadding),
    ("timeline_card_width", .real s.timeline.cardWidth),
    ("timeline_row_height", .real s.timeline.rowHeight),
    ("timeline_base_y", .real s.timeline.baseY),
    ("timeline_margin_x", .real s.timeline.marginX),
    ("timeline_group_spacing", .real s.timeline.groupSpacing),
    ("timeline_separator_offset", .real s.timeline.separatorOffset),
    ("timeline_tool_spacing", .real s.timeline.toolSpacing),
    ("timeline_tool_offset_x", .real s.timeline.toolOffsetX),
    ("timeline_tool_offset_y", .real s.timeline.toolOffsetY),
    ("hull_padding", .real s.hullPadding),
    ("hull_smooth_samples", .whole s.hullSamples),
    ("search_min_query_length", .whole s.search.minQueryLength),
    ("search_max_results", .whole s.search.maxResults)]

/-- Where settings come from: the variables of the environment and arguments, each in order. -/
structure Source where
  environment : List (String × String)
  arguments : Fields

def variableStart : String := "capgraph_"

/-- A text without the blanks around it; the control characters that separate records count as
text here. -/
def settingText (text : String) : List Char :=
  trimBy (fun c => isBlank c && !(0x1C ≤ c.toNat && c.toNat ≤ 0x1F)) text.toList

/-- Removes underscores, none of which may stand at an end or beside another one. -/
def dropUnderscores? (before : Char) : List Char → Option (List Char)
  | [] => if before = '_' then none else some []
  | c :: rest =>
    if c = '_' then if before = '_' then none else dropUnderscores? c rest
    else (dropUnderscores? c rest).map (c :: ·)

/-- Reads a real setting; underscores are left out only where no blanks surround the number. -/
def readReal? (text : String) : Option Float :=
  (readPlainFloat? (settingText text)).or
    ((dropUnderscores? '_' text.toList).bind readPlainFloat?)

/-- What follows zeros and underscores, the last of which is `before`: the rest of the number from
its first other digit or its minus on. The last of them stays where nothing or a point follows. -/
def afterZeros? (before : Char) : List Char → Option (List Char)
  | [] => some [before]
  | c :: rest =>
    if c = '0' ∨ c = '_' then afterZeros? c rest
    else if c = '.' then some (before :: c :: rest)
    else if c.isDigit ∨ c = '-' then some (c :: rest)
    else none

def dropLeadingZeros? : List Char → Option (List Char)
  | [] => none
  | c :: rest =>
    if c = '0' then afterZeros? c rest
    else if c.isDigit ∨ c = '-' then some (c :: rest)
    else none

def dropZeroFraction (cs : List Char) : List Char :=
  let fraction := (cs.dropWhile (· ≠ '.')).tail
  if !fraction.isEmpty && fraction.all (· = '0') then cs.takeWhile (· ≠ '.') else cs

/-- A text without a plus in front, which no minus may follow. -/
def dropPlus? : List Char → Option (List Char)
  | '+' :: '-' :: _ => none
  | '+' :: rest => some rest
  | cs => some cs

/-- Reads a whole setting; a fraction of zeros is allowed. -/
def readWhole? (text : String) : Option Int := do
  let number ← dropLeadingZeros? (← dropPlus? (settingText text))
  let (negative, digits) := splitSign (← dropUnderscores? '_' (dropZeroFraction number))
  if digits.isEmpty || !digits.all Char.isDigit ||
      decide (digitLimit < (digits.dropWhile (· = '0')).length) then none
  else
    let n := Int.ofNat (digitsValue digits)
    pure (if negative then -n else n)

/-- The whole number that a binary one is, if it fits into 64 bits. -/
def wholeOfFloat? (x : Float) : Option Int := do
  let n ← (Exact.ofBinary x).truncated?
  if Float.ofInt n == x && n.natAbs < Nat.pow 2 63 then pure n else none

def wholeValue? : Payload → Option Int
  | .bool b => some (if b then 1 else 0)
  | .int n => some n
  | .float x => wholeOfFloat? x
  | .text t => readWhole? t
  | _ => none

def realValue? : Payload → Option Float
  | .bool b => some (if b then 1 else 0)
  | .int n => ofInt? n
  | .float x => some x
  | .text t => readReal? t
  | _ => none

namespace Source

def isNamed (lowerName written : String) : Bool := String.ofList (lower written.toList) = lowerName

/-- The variable that sets a name, the last one if there are several. -/
def inherited? (s : Source) (name : String) : Option String :=
  (s.environment.reverse.find? (fun v => isNamed (variableStart ++ name) v.1)).map Prod.snd

/-- The argument that sets a name, the last one if there are several. -/
def argument? (s : Source) (name : String) : Option Payload :=
  (s.arguments.reverse.find? (fun a => isNamed name a.1)).map Prod.snd

def given? (s : Source) (name : String) : Option Payload :=
  (s.argument? name).or ((s.inherited? name).map .text)

def isRefused (s : Source) (name : String) (standard : Value) : Bool :=
  match s.given? name, standard with
  | some value, .whole _ => (wholeValue? value).isNone
  | some value, .real _ => (realValue? value).isNone
  | none, _ => false

def refused (s : Source) : List String :=
  let known := entries standard
  Order.sortTexts ((known.filter (fun e => s.isRefused e.1 e.2)).map Prod.fst ++
    (s.arguments.map Prod.fst).filter (fun written => !known.any (fun e => isNamed e.1 written)))

def whole (s : Source) (name : String) (standard : Int) : Int :=
  ((s.given? name).bind wholeValue?).getD standard

def real (s : Source) (name : String) (standard : Float) : Float :=
  ((s.given? name).bind realValue?).getD standard

/-- The settings of a source that has nothing to refuse. -/
def settings (s : Source) : Settings Float :=
  let d : Settings Float := standard
  { maxHops := s.whole "neighborhood_max_hops" d.maxHops
    radial := {
      tension := s.real "radial_tension" d.radial.tension
      margin := s.real "radial_margin" d.radial.margin
      minRadius := s.real "radial_min_radius" d.radial.minRadius
      capabilityRatio := s.real "radial_capability_ratio" d.radial.capabilityRatio
      toolPadding := s.real "radial_tool_padding" d.radial.toolPadding
      serverGap := s.real "radial_server_gap" d.radial.serverGap
      capabilityPadding := s.real "radial_capability_padding" d.radial.capabilityPadding }
    timeline := {
      cardWidth := s.real "timeline_card_width" d.timeline.cardWidth
      rowHeight := s.real "timeline_row_height" d.timeline.rowHeight
      baseY := s.real "timeline_base_y" d.timeline.baseY
      marginX := s.real "timeline_margin_x" d.timeline.marginX
      groupSpacing := s.real "timeline_group_spacing" d.timeline.groupSpacing
      separatorOffset := s.real "timeline_separator_offset" d.timeline.separatorOffset
      toolSpacing := s.real "timeline_tool_spacing" d.timeline.toolSpacing
      toolOffsetX := s.real "timeline_tool_offset_x" d.timeline.toolOffsetX
      toolOffsetY := s.real "timeline_tool_offset_y" d.timeline.toolOffsetY }
    hullPadding := s.real "hull_padding" d.hullPadding
    hullSamples := s.whole "hull_smooth_samples" d.hullSamples
    search := {
      minQueryLength := s.whole "search_min_query_length" d.search.minQueryLength
      maxResults := s.whole "search_max_results" d.search.maxResults } }

def read (s : Source) : Except (List String) (Settings Float) :=
  if s.refused.isEmpty then .ok s.settings else .error s.refused

end Source

/-- The settings for tests: the defaults, whatever the environment says of three of them. -/
def testSource (environment : List (String × String)) : Source where
  environment := environment
  arguments := [("neighborhood_max_hops", .int 10),
    ("radial_tension", .float (Scalar.ratio 85 100)), ("search_max_results", .int 8)]

end CapabilityAtlas.Settings
