import CapabilityAtlas.Geometry.Drawing
import CapabilityAtlas.Layout.Radial
import Mathlib

set_option autoImplicit false
set_option relaxedAutoImplicit false

/-!
Tensions between zero and one. Bringing a tension there twice is the same as once, and of such
tensions no two different ones compare as equal, since negative zero is not among them.
-/

namespace CapabilityAtlas.Geometry

theorem eq_of_beq_of_not_le {a b : Float} (same : a == b) (positive : ¬ a ≤ 0) : a = b := by
  obtain ⟨-, -, eq | ⟨rfl, -⟩ | ⟨rfl, -⟩⟩ := Float.beq_iff_ne_nan_and_eq.mp same
  · exact eq
  · exact absurd (by decide) positive
  · exact absurd (by decide) positive

private theorem eq_of_beq_of_lt {a b : Float} (same : a == b) (positive : ((0 : Nat) : Float) < a) :
    a = b := by
  obtain ⟨-, -, eq | ⟨rfl, -⟩ | ⟨rfl, -⟩⟩ := Float.beq_iff_ne_nan_and_eq.mp same
  · exact eq
  · exact absurd positive (by decide)
  · exact absurd positive (by decide)

private theorem clampTension_cases (t : Float) :
    clampTension t = ((1 : Nat) : Float) ∨ clampTension t = ((0 : Nat) : Float) ∨
      clampTension t = t ∧ ((0 : Nat) : Float) < t := by
  unfold clampTension clampUnit Scalar.larger Scalar.smaller
  split
  · by_cases positive : ((0 : Nat) : Float) < t
    · rw [if_pos positive]
      split
      · exact Or.inr (Or.inr ⟨rfl, positive⟩)
      · exact Or.inl rfl
    · rw [if_neg positive, if_pos (by decide)]
      exact Or.inr (Or.inl rfl)
  · exact Or.inl rfl

theorem clampTension_clampTension (t : Float) :
    clampTension (clampTension t) = clampTension t := by
  rcases clampTension_cases t with one | zero | ⟨same, -⟩
  · rw [one]
    decide
  · rw [zero]
    decide
  · rw [same, same]

theorem clampTension_eq_of_beq {t u : Float} (same : clampTension t == clampTension u) :
    clampTension t = clampTension u := by
  have positive_or : ∀ v : Float, ((0 : Nat) : Float) < clampTension v ∨
      clampTension v = ((0 : Nat) : Float) := by
    intro v
    rcases clampTension_cases v with one | zero | ⟨inside, positive⟩
    · left
      rw [one]
      decide
    · exact Or.inr zero
    · left
      rw [inside]
      exact positive
  rcases positive_or t with positive | zero
  · exact eq_of_beq_of_lt same positive
  · rcases positive_or u with positive | zero'
    · exact (eq_of_beq_of_lt (BEq.symm same) positive).symm
    · rw [zero, zero']

end CapabilityAtlas.Geometry

/-!
The layout of a canvas at one tension after another. The rings depend on the size alone, so that a
layout at another tension is the one that would have been made in its place.
-/

namespace CapabilityAtlas.Layout

open CapabilityAtlas.Geometry

variable {h : Hierarchy} {width height : Float} {tension : Option Float}
  {style : RadialStyle Float} {layout : RadialLayout Float}

private theorem layoutOnCanvas_eq (h : Hierarchy) (width height : Float) (tension : Option Float)
    (style : RadialStyle Float) : layoutOnCanvas h width height tension style =
      (canvasConfig width height none style).check >>= fun _ =>
        layoutAt h (place h (canvasConfig width height none style))
          (tension.getD style.tension) :=
  rfl

private theorem layoutAt_clampTension (h : Hierarchy) (rings : Rings Float) (t : Float) :
    layoutAt h rings (clampTension t) = layoutAt h rings t := by
  unfold layoutAt
  rw [clampTension_clampTension]

theorem layoutOnCanvas_clampTension (h : Hierarchy) (width height t : Float)
    (style : RadialStyle Float) : layoutOnCanvas h width height (some (clampTension t)) style =
      layoutOnCanvas h width height (some t) style := by
  rw [layoutOnCanvas_eq, layoutOnCanvas_eq, Option.getD_some, Option.getD_some,
    layoutAt_clampTension]

private theorem of_layoutAt {rings : Rings Float} {t : Float}
    (made : layoutAt h rings t = .ok layout) :
    layout.rings = rings ∧ layout.tension = clampTension t := by
  obtain ⟨paths, -, made⟩ := Fault.ok_of_bind made
  obtain rfl := Except.ok.inj made
  exact ⟨rfl, rfl⟩

theorem layoutOnCanvas_of_le (empty : width ≤ 0 ∨ height ≤ 0) :
    layoutOnCanvas h width height tension style = .error (.canvasSize width height) := by
  have refused : (canvasConfig width height none style).check =
      .error (.canvasSize width height) :=
    if_pos empty
  rw [layoutOnCanvas_eq, refused]
  rfl

theorem of_layoutOnCanvas (made : layoutOnCanvas h width height tension style = .ok layout) :
    ¬ width ≤ 0 ∧ ¬ height ≤ 0 ∧
      layout.tension = clampTension (tension.getD style.tension) ∧
      ∀ t, layoutOnCanvas h width height t style =
        layoutAt h layout.rings (t.getD style.tension) := by
  have extent : ¬ (width ≤ 0 ∨ height ≤ 0) := by
    intro empty
    rw [layoutOnCanvas_of_le empty] at made
    simp at made
  obtain ⟨wide, high⟩ := not_or.mp extent
  obtain ⟨_, check, made⟩ := Fault.ok_of_bind made
  obtain ⟨rings, same⟩ := of_layoutAt made
  refine ⟨wide, high, same, fun t => ?_⟩
  have check' : (canvasConfig width height none style).check = .ok () := check
  rw [layoutOnCanvas_eq, check', rings]
  rfl

/-- A layout is the one at its own tension. -/
theorem layoutOnCanvas_own (made : layoutOnCanvas h width height tension style = .ok layout) :
    layoutOnCanvas h width height (some layout.tension) style = .ok layout := by
  obtain ⟨-, -, same, again⟩ := of_layoutOnCanvas made
  rw [same, layoutOnCanvas_clampTension, again, Option.getD_some, ← again]
  exact made

/-- A kept layout at another tension is the one that would be made at that tension. -/
theorem retension_eq (made : layoutOnCanvas h width height tension style = .ok layout)
    (t : Float) : retension h layout t = layoutOnCanvas h width height (some t) style := by
  rw [(of_layoutOnCanvas made).2.2.2, Option.getD_some, retension]

end CapabilityAtlas.Layout
