import CapabilityAtlas.Layout.Radial
import CapabilityAtlas.Proofs.Geometry.Exact
import CapabilityAtlas.Proofs.Layout.Bundle
import CapabilityAtlas.Proofs.Numeral.Binary
import CapabilityAtlas.Proofs.Order
import Mathlib.Algebra.Order.Field.Basic
import Mathlib.Tactic.Linarith
import Mathlib.Tactic.NormNum

set_option autoImplicit false
set_option relaxedAutoImplicit false

/-!
The bands that the arcs of the two rings take, in exact numbers. However far an item is ranked and
used, the thickness of its arc stays between two limits, and the outer ring is not drawn below a
least radius. So the bands stay apart wherever that radius has room for the thickest arcs.
-/

namespace CapabilityAtlas.Layout

open CapabilityAtlas.Geometry CapabilityAtlas.Hierarchy

variable {α : Type} [Field α] [LinearOrder α] [IsStrictOrderedRing α]

section Thickness

private theorem contribution_mem (measure : α) {weight limit : α} (grows : 0 ≤ weight)
    (limited : 0 ≤ limit) :
    0 ≤ contribution measure weight limit ∧ contribution measure weight limit ≤ limit := by
  rw [contribution, Scalar.smaller_eq_min, Scalar.larger_eq_max, Nat.cast_zero]
  have measured : 0 ≤ max measure 0 * weight := mul_nonneg (le_max_right measure 0) grows
  exact ⟨le_min measured limited, min_le_right _ limit⟩

private theorem toolThickness_mem (pagerank : α) :
    6 ≤ toolThickness pagerank ∧ toolThickness pagerank ≤ 16 := by
  obtain ⟨low, high⟩ := contribution_mem pagerank
    (Nat.cast_nonneg (α := α) 25) (Nat.cast_nonneg (α := α) 10)
  rw [toolThickness]
  push_cast at low high ⊢
  constructor <;> linarith

private theorem capabilityThickness_mem (pagerank usageCount : α) :
    10 ≤ capabilityThickness pagerank usageCount ∧
      capabilityThickness pagerank usageCount ≤ 24 := by
  have share : (0 : α) ≤ Scalar.ratio 3 10 := div_nonneg (Nat.cast_nonneg 3) (Nat.cast_nonneg 10)
  obtain ⟨low, high⟩ := contribution_mem pagerank
    (Nat.cast_nonneg (α := α) 30) (Nat.cast_nonneg (α := α) 8)
  obtain ⟨low', high'⟩ := contribution_mem usageCount share
    (Nat.cast_nonneg (α := α) 6)
  rw [capabilityThickness]
  push_cast at low high low' high' ⊢
  constructor <;> linarith

end Thickness

section Rings

variable [Circular α] [OfBinary α]

omit [IsStrictOrderedRing α] in
private theorem of_mem_ring {center : Point α} {radius : α} {spacing : Spacing α}
    {groups : List (List RingItem)} {n : RingNode α}
    (member : n ∈ ring center radius spacing groups) :
    n.item ∈ groups.flatten ∧ n.radius = radius ∧ n.thickness = n.item.thickness := by
  rw [ring, ← List.map_uncurry_zip_eq_zipWith] at member
  obtain ⟨⟨item, arc⟩, listed, rfl⟩ := List.mem_map.mp member
  exact ⟨(List.of_mem_zip listed).1, rfl, rfl⟩

variable {h : Hierarchy} {c : RadialConfig α} {n : RingNode α}

private theorem of_mem_capabilities_place (member : n ∈ (place h c).capabilities) :
    n.radius = c.innerRadius ∧ 10 ≤ n.thickness ∧ n.thickness ≤ 24 := by
  obtain ⟨listed, radius, thickness⟩ := of_mem_ring member
  rw [List.flatten_singleton] at listed
  obtain ⟨t, -, item⟩ := List.mem_map.mp listed
  rw [thickness, ← item]
  exact ⟨radius, capabilityThickness_mem _ _⟩

private theorem of_mem_tools_place (member : n ∈ (place h c).tools) :
    n.radius = c.outerRadius ∧ 6 ≤ n.thickness ∧ n.thickness ≤ 16 := by
  obtain ⟨listed, radius, thickness⟩ := of_mem_ring member
  rw [← List.map_flatten] at listed
  obtain ⟨t, -, item⟩ := List.mem_map.mp listed
  rw [thickness, ← item]
  exact ⟨radius, toolThickness_mem _⟩

end Rings

/-- Whether the least radius of a style has room for arcs of every thickness, inside the inner ring
and between the rings. -/
structure IsRoomy (style : RadialStyle α) : Prop where
  share : 0 ≤ style.capabilityRatio
  share' : style.capabilityRatio ≤ 1
  inside : 12 < style.minRadius * style.capabilityRatio
  between : 20 < style.minRadius * (1 - style.capabilityRatio)

private theorem isRoomy_canvasConfig (width height : α) (tension : Option α) :
    IsRoomy (canvasConfig width height tension).style := by
  have ratio : (canvasConfig width height tension).style.capabilityRatio = 4 / 10 := by
    simp [canvasConfig, RadialStyle.standard, Scalar.ratio]
  have least : (canvasConfig width height tension).style.minRadius = 40 := by
    simp [canvasConfig, RadialStyle.standard]
  constructor
  · rw [ratio]
    norm_num
  · rw [ratio]
    norm_num
  · rw [ratio, least]
    norm_num
  · rw [ratio, least]
    norm_num

omit [IsStrictOrderedRing α] in
theorem minRadius_le_outerRadius {c : RadialConfig α} (free : c.toolRadius = none) :
    c.style.minRadius ≤ c.outerRadius := by
  rw [RadialConfig.outerRadius, free, Option.getD_none, Scalar.larger_eq_max]
  exact le_max_right _ _

variable [Circular α] [OfBinary α]

/-- With radii of their own the bands of a roomy style stay apart, whatever lies on the rings. -/
theorem bands_apart (h : Hierarchy) {c : RadialConfig α} (free : c.toolRadius = none)
    (free' : c.capabilityRadius = none) (roomy : IsRoomy c.style) :
    (∀ n ∈ (place h c).capabilities, 0 < n.innerRadius) ∧
      ∀ n ∈ (place h c).capabilities, ∀ m ∈ (place h c).tools, n.outerRadius < m.innerRadius := by
  have least := minRadius_le_outerRadius free
  have inner : c.innerRadius = c.outerRadius * c.style.capabilityRatio := by
    rw [RadialConfig.innerRadius, free', Option.getD_none]
  have inside : 12 < c.innerRadius := by
    rw [inner]
    exact roomy.inside.trans_le (mul_le_mul_of_nonneg_right least roomy.share)
  have between : 20 < c.outerRadius - c.innerRadius := by
    have share := sub_nonneg.mpr roomy.share'
    have room := roomy.between.trans_le (mul_le_mul_of_nonneg_right least share)
    rw [inner]
    linarith
  constructor
  · intro n capability
    obtain ⟨radius, -, thin⟩ := of_mem_capabilities_place capability
    rw [RingNode.innerRadius, radius, Nat.cast_ofNat]
    linarith
  · intro n capability m tool
    obtain ⟨radius, -, thin⟩ := of_mem_capabilities_place capability
    obtain ⟨radius', -, thin'⟩ := of_mem_tools_place tool
    rw [RingNode.outerRadius, RingNode.innerRadius, radius, radius', Nat.cast_ofNat]
    linarith

/-- On a canvas of any size an accepted snapshot has a layout in the default style. There the arcs
of capabilities keep off the center and stay inside those of tools, however the items are ranked
and used. -/
theorem radialLayout_bands_apart {payload : Payload} {s : Snapshot}
    (accepted : Snapshot.ofPayload payload = .ok s) (width height : α) (tension : Option α) :
    ∃ layout, radialLayout (build s) (canvasConfig width height tension) = .ok layout ∧
      layout.rings = place (build s) (canvasConfig width height tension) ∧
      (∀ n ∈ layout.rings.capabilities, 0 < n.innerRadius) ∧
      ∀ n ∈ layout.rings.capabilities, ∀ m ∈ layout.rings.tools,
        n.outerRadius < m.innerRadius := by
  obtain ⟨layout, made, rings⟩ := exists_radialLayout_eq_ok (nodup_activeIds accepted)
    (canvasConfig width height tension)
  refine ⟨layout, made, rings, ?_⟩
  rw [rings]
  exact bands_apart (build s) rfl rfl (isRoomy_canvasConfig width height tension)

noncomputable instance exactOfBinary : OfBinary ℝ := ⟨fun x => (Numeral.Exact.ofBinary x).value⟩

theorem radialLayout_bands_apart_of_shared :
    ∃ s layout, Snapshot.ofPayload (sharedToolPayload "t") = .ok s ∧
      radialLayout (build s) (canvasConfig (1 : ℝ) 1 none) = .ok layout ∧
      ∃ n ∈ layout.rings.capabilities, ∃ m ∈ layout.rings.tools,
        n.id = "c" ∧ m.id = "t" ∧ 0 < n.innerRadius ∧ n.outerRadius < m.innerRadius := by
  obtain ⟨s, accepted, c, t⟩ : ∃ s, Snapshot.ofPayload (sharedToolPayload "t") = .ok s ∧
      "c" ∈ (build s).walk.map Tree.id ∧ "t" ∈ ringToolIds (build s) false :=
    ⟨_, rfl, by decide +kernel, by decide +kernel⟩
  obtain ⟨layout, made, rings, inside, between⟩ :=
    radialLayout_bands_apart accepted (1 : ℝ) 1 none
  have capability : "c" ∈ layout.rings.capabilities.map RingNode.id := by
    rwa [rings, (perm_map_id_capabilities_place _ _).mem_iff]
  have tool : "t" ∈ layout.rings.tools.map RingNode.id := by
    rwa [rings, map_id_tools_place]
  obtain ⟨n, inner, id⟩ := List.mem_map.mp capability
  obtain ⟨m, outer, id'⟩ := List.mem_map.mp tool
  exact ⟨s, layout, accepted, made, n, inner, m, outer, id, id', inside n inner,
    between n inner m outer⟩

end CapabilityAtlas.Layout
