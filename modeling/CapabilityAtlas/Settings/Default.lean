import CapabilityAtlas.Scalar
import CapabilityAtlas.Search.Ranking

set_option autoImplicit false
set_option relaxedAutoImplicit false

/-!
Settings and their defaults.
-/

namespace CapabilityAtlas

/-- How the rings of a radial layout are drawn. Angles are in radians; the capability ratio is the
radius of the inner ring in terms of the outer one. -/
structure RadialStyle (α : Type) where
  tension : α
  margin : α
  minRadius : α
  capabilityRatio : α
  toolPadding : α
  serverGap : α
  capabilityPadding : α

structure TimelineStyle (α : Type) where
  cardWidth : α
  rowHeight : α
  baseY : α
  marginX : α
  groupSpacing : α
  separatorOffset : α
  toolSpacing : α
  toolOffsetX : α
  toolOffsetY : α

structure Settings (α : Type) where
  maxHops : Int
  radial : RadialStyle α
  timeline : TimelineStyle α
  hullPadding : α
  hullSamples : Int
  search : Search.Limits

def RadialStyle.standard {α : Type} [NatCast α] [Div α] : RadialStyle α where
  tension := Scalar.ratio 85 100
  margin := ((80 : Nat) : α)
  minRadius := ((40 : Nat) : α)
  capabilityRatio := Scalar.ratio 4 10
  toolPadding := Scalar.ratio 2 100
  serverGap := Scalar.ratio 6 100
  capabilityPadding := Scalar.ratio 2 100

def TimelineStyle.standard {α : Type} [NatCast α] : TimelineStyle α where
  cardWidth := ((200 : Nat) : α)
  rowHeight := ((180 : Nat) : α)
  baseY := ((80 : Nat) : α)
  marginX := ((100 : Nat) : α)
  groupSpacing := ((60 : Nat) : α)
  separatorOffset := ((30 : Nat) : α)
  toolSpacing := ((35 : Nat) : α)
  toolOffsetX := ((20 : Nat) : α)
  toolOffsetY := ((40 : Nat) : α)

def Settings.standard {α : Type} [NatCast α] [Div α] : Settings α where
  maxHops := 10
  radial := RadialStyle.standard
  timeline := TimelineStyle.standard
  hullPadding := ((20 : Nat) : α)
  hullSamples := 8
  search := {}

end CapabilityAtlas
