import CapabilityAtlas.Fault
import CapabilityAtlas.Keyed
import CapabilityAtlas.Record.Node

set_option autoImplicit false
set_option relaxedAutoImplicit false

/-!
Colors. Servers take the colors of a palette in the order in which they are first seen and keep
them; the palette starts over when it is used up. Communities have fixed colors.
-/

namespace CapabilityAtlas

structure Palette where
  colors : List String
  colors_ne_nil : colors ≠ []
  assigned : Keyed String

namespace Palette

/-- The color of a tool whose server is not known. -/
def unknownColor : String := "#8a8078"

def serverColors : List String :=
  ["#FFB86F", "#FF6B6B", "#4ECDC4", "#FFE66D", "#95E1D3", "#F38181", "#AA96DA", "#FCBAD3",
    "#A8D8EA", "#FF9F43", "#6C5CE7", "#00CEC9"]

def communityColors : List String :=
  ["#3b82f6", "#10b981", "#f59e0b", "#ef4444", "#8b5cf6", "#ec4899", "#06b6d4", "#84cc16",
    "#6366f1", "#14b8a6", "#f97316", "#a855f7"]

/-- The color of a capability without a community. -/
def plainColor : String := "#8b5cf6"

def standard : Palette where
  colors := serverColors
  colors_ne_nil := by simp [serverColors]
  assigned := []

def ofColors (colors : List String) : Except Fault Palette :=
  if h : colors = [] then .error .emptyPalette
  else .ok { colors := colors, colors_ne_nil := h, assigned := [] }

def next (p : Palette) : String :=
  p.colors.get ⟨p.assigned.length % p.colors.length,
    Nat.mod_lt _ (List.length_pos_iff.mpr p.colors_ne_nil)⟩

def isNamed (server : String) : Bool := server != "" && server != unknownServer

def assign (p : Palette) (server : String) : String × Palette :=
  match p.assigned.get? server with
  | some color => (color, p)
  | none => (p.next, { p with assigned := p.assigned.put server p.next })

def color (p : Palette) : Option String → String × Palette
  | some server => if isNamed server then p.assign server else (unknownColor, p)
  | none => (unknownColor, p)

def colorAll (p : Palette) : List String → List (String × String) × Palette
  | [] => ([], p)
  | server :: rest =>
    let (shade, p) := p.color (some server)
    let (shades, p) := p.colorAll rest
    ((server, shade) :: shades, p)

def communityColor : Option Int → String
  | some id => communityColors.getD (id % communityColors.length).toNat plainColor
  | none => plainColor

end Palette

end CapabilityAtlas
