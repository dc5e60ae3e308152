import CapabilityAtlas.Proofs.Geometry.Extreme
import CapabilityAtlas.Proofs.Geometry.Outline

set_option autoImplicit false
set_option relaxedAutoImplicit false

/-!
Capsules with exact numbers. Around either end of a segment goes a half circle of directions, from
the right of the way to that end to its left, so one end is like the other.
-/

namespace CapabilityAtlas.Geometry

open Real

/-- The direction at an angle, counter-clockwise from the one to the right of a given direction. -/
noncomputable def rim (u : Point ℝ) (t : ℝ) : Point ℝ :=
  ⟨sin t * u.x + cos t * u.y, sin t * u.y - cos t * u.x⟩

section Rim

variable {u : Point ℝ}

private theorem rim_dot (unit : u.dot u = 1) (t : ℝ) : (rim u t).dot u = sin t := by
  simp only [rim, Point.dot] at unit ⊢
  linear_combination sin t * unit

private theorem rim_dot_rim (unit : u.dot u = 1) (s t : ℝ) :
    (rim u s).dot (rim u t) = cos (s - t) := by
  rw [cos_sub]
  simp only [rim, Point.dot] at unit ⊢
  linear_combination (sin s * sin t + cos s * cos t) * unit

private theorem rim_opposite (u : Point ℝ) (t : ℝ) :
    rim (u.scale (-1)) t = (rim u t).scale (-1) := by
  ext
  · simp only [rim, Point.scale]
    ring
  · simp only [rim, Point.scale]
    ring

private theorem rim_add (u : Point ℝ) (t d : ℝ) : rim u (t + d) =
    ⟨cos d * (rim u t).x - sin d * (rim u t).y, cos d * (rim u t).y + sin d * (rim u t).x⟩ := by
  ext
  · simp only [rim, sin_add, cos_add]
    ring
  · simp only [rim, sin_add, cos_add]
    ring

private theorem turn_rim (unit : u.dot u = 1) (c q : Point ℝ) (r t d : ℝ) :
    turn (c.add ((rim u (t - d)).scale r)) (c.add ((rim u (t + d)).scale r)) q =
      2 * r * sin d * (r * cos d - (rim u t).dot (q.sub c)) := by
  have middle : (rim u t).dot (rim u t) = 1 := by
    rw [rim_dot_rim unit, sub_self, cos_zero]
  rw [sub_eq_add_neg, rim_add, rim_add, cos_neg, sin_neg]
  simp only [turn, Point.add, Point.scale, Point.dot, Point.sub] at middle ⊢
  linear_combination 2 * r * sin d * r * cos d * middle

end Rim

/-- A point of the half circle around the end of a segment that arrives there in a direction. -/
noncomputable def bow (r : ℝ) (n : Nat) (c u : Point ℝ) (i : Nat) : Point ℝ :=
  c.add ((rim u (i * (π / n))).scale r)

noncomputable def bows (r : ℝ) (n : Nat) (c u : Point ℝ) : List (Point ℝ) :=
  (List.range (n + 1)).map (bow r n c u)

private theorem halfCircle_eq {n : Nat} (nonzero : 0 < n) (c : Point ℝ) (r axis : ℝ) :
    halfCircle c r axis n = bows r n c ⟨cos axis, sin axis⟩ := by
  have angle : ∀ i, halfCircleAngle n i = i * (π / n) - π / 2 := by
    intro i
    have positive : (n : ℝ) ≠ 0 := Nat.cast_ne_zero.mpr nonzero.ne'
    rw [halfCircleAngle, quarterTurn]
    split_ifs with first last
    · rw [first]
      simp [Circular.pi]
    · rw [last, mul_div_cancel₀ _ positive]
      simp only [Circular.pi, Nat.cast_ofNat]
      ring
    · simp only [Circular.pi, Nat.cast_ofNat]
      ring
  refine List.map_congr_left fun i _ => ?_
  have turned : axis + (i * (π / n) - π / 2) = axis + i * (π / n) - π / 2 := by ring
  simp only [angle, turned, bow, Point.add, Point.scale, rim]
  change (⟨c.x + r * cos _, c.y + r * sin _⟩ : Point ℝ) = _
  rw [cos_sub_pi_div_two, sin_sub_pi_div_two, sin_add, cos_add]
  ext
  · simp only
    ring
  · simp only
    ring

/-- An end of a segment of a length and the other one, each with the direction in which the segment
arrives there. -/
structure Arrives (c u o v : Point ℝ) (long : ℝ) : Prop where
  unit : u.dot u = 1
  positive : 0 < long
  far : o = c.add (u.scale (-long))
  back : v = u.scale (-1)

private theorem Arrives.swap {c u o v : Point ℝ} {long : ℝ} (arrives : Arrives c u o v long) :
    Arrives o v c u long := by
  obtain ⟨unit, positive, rfl, rfl⟩ := arrives
  refine ⟨?_, positive, ?_, ?_⟩
  · simp only [Point.dot, Point.scale] at unit ⊢
    linear_combination unit
  · ext
    · simp only [Point.add, Point.scale]
      ring
    · simp only [Point.add, Point.scale]
      ring
  · ext
    · simp [Point.scale]
    · simp [Point.scale]

private theorem arrives_heading {a b : Point ℝ} (apart : a ≠ b) :
    Arrives b ⟨cos (heading a b), sin (heading a b)⟩
      a ⟨cos (heading a b + π), sin (heading a b + π)⟩ (b.sub a).length := by
  have long := length_sub_pos apart
  have angle : heading a b = Complex.arg ⟨(b.sub a).x, (b.sub a).y⟩ := by
    rw [heading, if_pos (by simpa using long)]
    rfl
  have norm : ‖(⟨(b.sub a).x, (b.sub a).y⟩ : ℂ)‖ = (b.sub a).length := by
    rw [Complex.norm_def, Complex.normSq_mk, Point.length_eq]
    rfl
  have nonzero : (⟨(b.sub a).x, (b.sub a).y⟩ : ℂ) ≠ 0 := by
    rw [← norm_pos_iff, norm]
    exact long
  have across : cos (heading a b) = (b.sub a).x / (b.sub a).length := by
    rw [angle, Complex.cos_arg nonzero, norm]
  have upward : sin (heading a b) = (b.sub a).y / (b.sub a).length := by
    rw [angle, Complex.sin_arg, norm]
  refine ⟨?_, long, ?_, ?_⟩
  · simp only [Point.dot]
    linear_combination sin_sq_add_cos_sq (heading a b)
  · rw [across, upward]
    ext
    · simp only [Point.add, Point.scale]
      field_simp
      simp [Point.sub]
    · simp only [Point.add, Point.scale]
      field_simp
      simp [Point.sub]
  · rw [cos_add_pi, sin_add_pi]
    ext
    · simp [Point.scale]
    · simp [Point.scale]

theorem capsule_eq {a b : Point ℝ} {r : ℝ} (positive : 0 < r) {n : Nat} (nonzero : 0 < n) :
    capsule r n a b =
      bows r n b ⟨cos (heading a b), sin (heading a b)⟩ ++
        bows r n a ⟨cos (heading a b + π), sin (heading a b + π)⟩ := by
  rw [capsule, if_neg (by simpa using positive), halfCircle_eq nonzero, halfCircle_eq nonzero]
  rfl

section Heights

variable {c u o v : Point ℝ} {r long : ℝ} {n : Nat}

private theorem rim_dot_bow (unit : u.dot u = 1) (t : ℝ) (i : Nat) :
    (rim u t).dot ((bow r n c u i).sub c) = r * cos (t - i * (π / n)) := by
  rw [← rim_dot_rim unit, bow]
  simp only [Point.dot, Point.add, Point.sub, Point.scale]
  ring

namespace Arrives

variable (arrives : Arrives c u o v long)

include arrives

/-- Against a direction, the other half circle reaches as far as this one does along it, and the
segment adds its part. -/
private theorem rim_dot_bow_far (t : ℝ) (i : Nat) : (rim u t).dot ((bow r n o v i).sub c) =
    -(long * sin t) - r * cos (t - i * (π / n)) := by
  obtain ⟨unit, -, rfl, rfl⟩ := arrives
  rw [← rim_dot unit, ← rim_dot_rim unit, bow, rim_opposite]
  simp only [Point.dot, Point.add, Point.sub, Point.scale]
  ring

private theorem rim_dot_along (t s : ℝ) :
    (rim u t).dot ((along c o s).sub c) = -(s * long * sin t) := by
  obtain ⟨unit, -, rfl, -⟩ := arrives
  rw [← rim_dot unit]
  simp only [along, Point.dot, Point.add, Point.sub, Point.scale]
  ring

end Arrives

end Heights

/-- Half the angle between two neighboring points of a half circle. -/
noncomputable def opening (n : Nat) : ℝ := π / (n + n)

section Opening

variable {n : Nat}

private theorem step_pos (positive : 0 < n) :
    0 < π / n := div_pos pi_pos (Nat.cast_pos.mpr positive)

private theorem step_last (positive : 0 < n) : n * (π / n) = π :=
  mul_div_cancel₀ _ (Nat.cast_ne_zero.mpr positive.ne')

private theorem step_eq (n i : Nat) : i * (π / n) = 2 * i * opening n := by
  rw [opening]
  ring

private theorem two_mul_opening (positive : 0 < n) : 2 * n * opening n = π := by
  rw [← step_eq, step_last positive]

private theorem opening_pos (nonzero : 0 < n) : 0 < opening n := by
  have positive : (0 : ℝ) < n := Nat.cast_pos.mpr nonzero
  exact div_pos pi_pos (add_pos positive positive)

private theorem step_mem {k : Nat} (nonzero : 0 < n) (there : k ≤ n) :
    k * (π / n) ∈ Set.Icc 0 π := by
  have positive := step_pos nonzero
  have bound := mul_le_mul_of_nonneg_right (Nat.cast_le (α := ℝ).mpr there) positive.le
  exact ⟨mul_nonneg (Nat.cast_nonneg k) positive.le, bound.trans_eq (step_last nonzero)⟩

private theorem step_inj {i k : Nat} (positive : 0 < n) : i * (π / n) = k * (π / n) ↔ i = k := by
  rw [mul_left_inj' (step_pos positive).ne', Nat.cast_inj]

private theorem opening_lt (enough : 2 ≤ n) : opening n < π / 2 := by
  have many : (2 : ℝ) ≤ n := by exact_mod_cast enough
  exact div_lt_div_of_pos_left pi_pos two_pos (by linarith)

private theorem cos_lt_cos_of_lt_abs {d x : ℝ} (low : 0 ≤ d) (beyond : d < |x|) (high : |x| ≤ π) :
    cos x < cos d := by
  rw [← cos_abs x]
  exact cos_lt_cos_of_nonneg_of_le_pi low high beyond

private theorem abs_middle_sub (positive : 0 < n) (i k : Nat) :
    |(2 * i + 1) * opening n - k * (π / n)| = (|2 * i + 1 - 2 * k| : ℤ) * opening n := by
  have factor : (2 * i + 1) * opening n - k * (π / n) =
      (2 * i + 1 - 2 * k : ℤ) * opening n := by
    rw [step_eq]
    push_cast
    ring
  rw [factor, abs_mul, abs_of_pos (opening_pos positive), Int.cast_abs]

private theorem abs_middle_sub_le {i k : Nat} (here : i < n) (there : k ≤ n) :
    |(2 * i + 1) * opening n - k * (π / n)| ≤ π - opening n := by
  have positive : 0 < n := by omega
  have count : |(2 * i + 1 - 2 * k : ℤ)| ≤ 2 * n - 1 := abs_le.mpr ⟨by omega, by omega⟩
  have count' : ((|2 * i + 1 - 2 * k| : ℤ) : ℝ) ≤ 2 * n - 1 := by exact_mod_cast count
  have room := mul_le_mul_of_nonneg_right count' (opening_pos positive).le
  rw [sub_mul, two_mul_opening positive, one_mul] at room
  rwa [abs_middle_sub positive]

/-- Of a half circle only two neighboring points are as far in the direction of their middle. -/
private theorem cos_middle_lt {i k : Nat} (here : i < n) (there : k ≤ n) (first : k ≠ i)
    (second : k ≠ i + 1) : cos ((2 * i + 1) * opening n - k * (π / n)) < cos (opening n) := by
  have nonzero : 0 < n := by omega
  have positive := opening_pos nonzero
  have count : 1 < |(2 * i + 1 - 2 * k : ℤ)| := lt_abs.mpr (by omega)
  have count' : (1 : ℝ) < (|2 * i + 1 - 2 * k| : ℤ) := by exact_mod_cast count
  refine cos_lt_cos_of_lt_abs positive.le ?_ ?_
  · rw [abs_middle_sub nonzero]
    exact lt_mul_of_one_lt_left positive count'
  · exact (abs_middle_sub_le here there).trans (by linarith)

private theorem neg_cos_middle_le {i k : Nat} (here : i < n) (there : k ≤ n) :
    -cos ((2 * i + 1) * opening n - k * (π / n)) ≤ cos (opening n) := by
  have positive : 0 < opening n := opening_pos (by omega)
  have opposite := cos_le_cos_of_nonneg_of_le_pi (abs_nonneg _) (by linarith)
    (abs_middle_sub_le here there)
  rw [cos_abs, cos_pi_sub] at opposite
  linarith

private theorem sin_middle_pos {i : Nat} (here : i < n) : 0 < sin ((2 * i + 1) * opening n) := by
  have positive : 0 < opening n := opening_pos (by omega)
  have last := abs_middle_sub_le here (Nat.zero_le n)
  rw [Nat.cast_zero, zero_mul, sub_zero] at last
  refine sin_pos_of_pos_of_lt_pi (by positivity) ?_
  linarith [le_abs_self ((2 * i + 1) * opening n)]

end Opening

section Sides

variable {c u o v : Point ℝ} {r long : ℝ} {n : Nat}

private theorem faces_bow (unit : u.dot u = 1) (positive : 0 < r) (enough : 2 ≤ n) (i : Nat) :
    Faces (bow r n c u i, bow r n c u (i + 1)) (rim u ((2 * i + 1) * opening n)) c
      (r * cos (opening n)) := by
  have narrow := opening_pos (n := n) (by omega)
  have ahead : 0 < sin (opening n) :=
    sin_pos_of_pos_of_lt_pi narrow ((opening_lt enough).trans (by linarith [pi_pos]))
  have first : i * (π / n) = (2 * i + 1) * opening n - opening n := by
    rw [step_eq]
    ring
  have second : (i + 1 : Nat) * (π / n) = (2 * i + 1) * opening n + opening n := by
    rw [step_eq]
    push_cast
    ring
  refine ⟨2 * r * sin (opening n), by positivity, fun q => ?_⟩
  rw [bow, bow, first, second]
  exact turn_rim unit c q r _ _

private theorem Arrives.faces_side (arrives : Arrives c u o v long) (nonzero : 0 < n) :
    Faces (bow r n c u n, bow r n o v 0) (rim u π) c r := by
  have left : rim u π = ⟨-u.y, u.x⟩ := by
    simp [rim]
  have left' : rim v 0 = ⟨-u.y, u.x⟩ := by
    rw [arrives.back]
    simp [rim, Point.scale]
  have unit : (⟨-u.y, u.x⟩ : Point ℝ).dot ⟨-u.y, u.x⟩ = 1 := by
    have unit := arrives.unit
    simp only [Point.dot] at unit ⊢
    linear_combination unit
  have way : o.sub c = ⟨-(long * u.x), long * -u.y⟩ := by
    rw [arrives.far]
    ext
    · simp only [Point.sub, Point.add, Point.scale]
      ring
    · simp only [Point.sub, Point.add, Point.scale]
      ring
  refine ⟨long, arrives.positive, fun q => ?_⟩
  rw [bow, bow, step_last nonzero, Nat.cast_zero, zero_mul, left, left',
    turn_moved unit way unit unit, sub_self, mul_zero, add_zero]

namespace Arrives

variable (arrives : Arrives c u o v long) (positive : 0 < r)

include arrives positive

section Bow

variable {i k : Nat} (enough : 2 ≤ n) (here : i < n)

include enough here

private theorem turn_bow_own (there : k ≤ n) (first : k ≠ i) (second : k ≠ i + 1) :
    0 < turn (bow r n c u i) (bow r n c u (i + 1)) (bow r n c u k) := by
  refine (faces_bow arrives.unit positive enough i).turn_pos ?_
  rw [rim_dot_bow arrives.unit]
  exact mul_lt_mul_of_pos_left (cos_middle_lt here there first second) positive

private theorem turn_bow_far (there : k ≤ n) :
    0 < turn (bow r n c u i) (bow r n c u (i + 1)) (bow r n o v k) := by
  refine (faces_bow arrives.unit positive enough i).turn_pos ?_
  have back := mul_pos arrives.positive (sin_middle_pos here)
  have reach := mul_le_mul_of_nonneg_left (neg_cos_middle_le here there) positive.le
  rw [arrives.rim_dot_bow_far]
  linarith

private theorem turn_bow_along {t : ℝ} (low : 0 ≤ t) :
    0 < turn (bow r n c u i) (bow r n c u (i + 1)) (along c o t) := by
  refine (faces_bow arrives.unit positive enough i).turn_pos ?_
  have back := mul_nonneg (mul_nonneg low arrives.positive.le) (sin_middle_pos here).le
  have nonzero : 0 < opening n := opening_pos (by omega)
  have level : 0 < cos (opening n) :=
    cos_pos_of_mem_Ioo ⟨by linarith [pi_pos], opening_lt enough⟩
  have level' := mul_pos positive level
  rw [arrives.rim_dot_along]
  linarith

end Bow

section Side

variable {k : Nat}

private theorem turn_side_own (there : k < n) :
    0 < turn (bow r n c u n) (bow r n o v 0) (bow r n c u k) := by
  have nonzero : 0 < n := by omega
  obtain ⟨low, high⟩ := step_mem nonzero there.le
  have apart : k * (π / n) ≠ π := by
    intro same
    exact there.ne ((step_inj nonzero).mp (same.trans (step_last nonzero).symm))
  have below : cos (π - k * (π / n)) < cos 0 := by
    have beyond : 0 < π - k * (π / n) := sub_pos.mpr (high.lt_of_ne apart)
    exact cos_lt_cos_of_nonneg_of_le_pi (le_refl 0) (by linarith) beyond
  rw [cos_zero] at below
  refine (arrives.faces_side nonzero).turn_pos ?_
  rw [rim_dot_bow arrives.unit]
  exact mul_lt_of_lt_one_right positive below

private theorem turn_side_far (start : 0 < k) (there : k ≤ n) :
    0 < turn (bow r n c u n) (bow r n o v 0) (bow r n o v k) := by
  have nonzero : 0 < n := by omega
  obtain ⟨low, high⟩ := step_mem nonzero there
  have apart : 0 < (k : ℝ) * (π / n) :=
    mul_pos (Nat.cast_pos.mpr start) (step_pos nonzero)
  have below := cos_lt_cos_of_nonneg_of_le_pi (le_refl 0) high apart
  rw [cos_zero] at below
  refine (arrives.faces_side nonzero).turn_pos ?_
  rw [arrives.rim_dot_bow_far, sin_pi, mul_zero, neg_zero, zero_sub, cos_pi_sub, mul_neg, neg_neg]
  exact mul_lt_of_lt_one_right positive below

private theorem turn_side_along (nonzero : 0 < n) (t : ℝ) :
    0 < turn (bow r n c u n) (bow r n o v 0) (along c o t) := by
  refine (arrives.faces_side nonzero).turn_pos ?_
  rw [arrives.rim_dot_along, sin_pi, mul_zero, neg_zero]
  exact positive

end Side

/-- Every side of a half circle and the one from it to the other have all other points of both to
their left. -/
private theorem turn_pos_of_mem (enough : 2 ≤ n) {s : Point ℝ × Point ℝ}
    (side : s ∈ links (bows r n c u ++ [bow r n o v 0])) {w : Point ℝ}
    (member : w ∈ bows r n c u ++ bows r n o v) (start : w ≠ s.1) (stop : w ≠ s.2) :
    0 < turn s.1 s.2 w := by
  have own : ∀ {k i : Nat}, bow r n c u k ≠ bow r n c u i → k ≠ i := by
    rintro k i apart rfl
    exact apart rfl
  rw [bows, mem_links_map_range] at side
  simp only [bows, List.mem_append, List.mem_map, List.mem_range, Nat.lt_succ_iff] at member
  rcases side with ⟨i, here, rfl⟩ | rfl
  · rcases member with ⟨k, there, rfl⟩ | ⟨k, there, rfl⟩
    · exact arrives.turn_bow_own positive enough here there (own start) (own stop)
    · exact arrives.turn_bow_far positive enough here there
  · rcases member with ⟨k, there, rfl⟩ | ⟨k, there, rfl⟩
    · exact arrives.turn_side_own positive (there.lt_of_ne (own start))
    · refine arrives.turn_side_far positive (Nat.pos_of_ne_zero ?_) there
      rintro rfl
      exact stop rfl

private theorem turn_pos_of_along (enough : 2 ≤ n) {s : Point ℝ × Point ℝ}
    (side : s ∈ links (bows r n c u ++ [bow r n o v 0])) {t : ℝ} (low : 0 ≤ t) :
    0 < turn s.1 s.2 (along c o t) := by
  rw [bows, mem_links_map_range] at side
  rcases side with ⟨i, here, rfl⟩ | rfl
  · exact arrives.turn_bow_along positive enough here low
  · exact arrives.turn_side_along positive (by omega) t

omit arrives positive in
private theorem mem_sides_bows {s : Point ℝ × Point ℝ} :
    s ∈ sides (bows r n c u ++ bows r n o v) ↔
      s ∈ links (bows r n c u ++ [bow r n o v 0]) ∨
        s ∈ links (bows r n o v ++ [bow r n c u 0]) := by
  have first : ∀ c u, bows r n c u =
      bow r n c u 0 :: (List.range n).map (fun i => bow r n c u (i + 1)) := by
    intro c u
    rw [bows, List.range_succ_eq_map, List.map_cons, List.map_map]
    rfl
  rw [first c u, first o v, sides_append, List.mem_append]

private theorem nodup_bows (nonzero : 0 < n) : (bows r n c u).Nodup := by
  refine List.Nodup.map_on (fun i here k there same => ?_) List.nodup_range
  rw [List.mem_range, Nat.lt_succ_iff] at here there
  have reach := congrArg (fun p : Point ℝ => (rim u 0).dot (p.sub c)) same
  simp only [rim_dot_bow arrives.unit, zero_sub, cos_neg] at reach
  have level := mul_left_cancel₀ positive.ne' reach
  exact (step_inj nonzero).mp (injOn_cos (step_mem nonzero here) (step_mem nonzero there) level)

private theorem disjoint_bows (nonzero : 0 < n) : List.Disjoint (bows r n c u) (bows r n o v) := by
  intro w own far
  simp only [bows, List.mem_map, List.mem_range, Nat.lt_succ_iff] at own far
  obtain ⟨i, here, rfl⟩ := own
  obtain ⟨k, there, same⟩ := far
  have reach := congrArg (fun p : Point ℝ => (rim u (π / 2)).dot (p.sub c)) same
  simp only [rim_dot_bow arrives.unit, arrives.rim_dot_bow_far, sin_pi_div_two, mul_one,
    cos_pi_div_two_sub] at reach
  have ahead := mul_nonneg positive.le (sin_nonneg_of_mem_Icc (step_mem nonzero here))
  have behind := mul_nonneg positive.le (sin_nonneg_of_mem_Icc (step_mem nonzero there))
  linarith [arrives.positive]

theorem isConvexCycle (enough : 2 ≤ n) : IsConvexCycle (bows r n c u ++ bows r n o v) := by
  have nonzero : 0 < n := by omega
  refine ⟨⟨?_, ?_⟩, (arrives.nodup_bows positive nonzero).append
    (arrives.swap.nodup_bows positive nonzero) (arrives.disjoint_bows positive nonzero)⟩
  · simp only [bows, List.length_append, List.length_map, List.length_range]
    omega
  · intro s side w member start stop
    rw [Nat.cast_zero]
    rcases mem_sides_bows.mp side with here | there
    · exact arrives.turn_pos_of_mem positive enough here member start stop
    · rw [List.mem_append, or_comm, ← List.mem_append] at member
      exact arrives.swap.turn_pos_of_mem positive enough there member start stop

end Arrives

end Sides

private theorem length_bow_sub {c u : Point ℝ} (unit : u.dot u = 1) {r : ℝ} (nonneg : 0 ≤ r)
    (n i : Nat) :
    ((bow r n c u i).sub c).length = r := by
  have whole : (bow r n c u i).sub c = (rim u (i * (π / n))).scale r := by
    ext
    · simp [bow, Point.sub, Point.add]
    · simp [bow, Point.sub, Point.add]
  rw [whole, Point.length_scale nonneg, Point.length_eq, rim_dot_rim unit, sub_self, cos_zero,
    Real.sqrt_one, mul_one]

section Outline

variable {points : List (Point ℝ)}

/-- The outline around several points on one line, if it is not smoothed, is convex. Each of its
vertices has the padding as its distance from one of two of the points, between which all others
lie, and it has all points strictly to the left of its sides. -/
theorem outline_capsule (flat : OnLine points) (several : 2 ≤ points.toFinset.card) {padding : ℝ}
    (positive : 0 < padding) (samples : Int) :
    IsConvexCycle (outline ⟨padding, false, samples⟩ points) ∧
    (∃ a ∈ points, ∃ b ∈ points, a ≠ b ∧
      (∀ p ∈ points, ∃ t, 0 ≤ t ∧ t ≤ 1 ∧ p = along a b t) ∧
      ∀ v ∈ outline ⟨padding, false, samples⟩ points,
        (v.sub a).length = padding ∨ (v.sub b).length = padding) ∧
    ∀ s ∈ sides (outline ⟨padding, false, samples⟩ points), ∀ p ∈ points, 0 < turn s.1 s.2 p := by
  obtain ⟨a, ha, b, hb, apart, hull, between⟩ := exists_convexHull_eq_pair flat several
  have enough : 2 ≤ capsuleSegments := by decide
  have arrives := arrives_heading apart
  have round : outline ⟨padding, false, samples⟩ points =
      bows padding capsuleSegments b ⟨cos (heading a b), sin (heading a b)⟩ ++
        bows padding capsuleSegments a ⟨cos (heading a b + π), sin (heading a b + π)⟩ := by
    have count : ¬ (Point.distinct points).length < 2 := by
      rw [length_distinct]
      exact Nat.not_lt.mpr several
    rw [outline, if_neg count, hull, ← capsule_eq positive (by decide)]
    rfl
  rw [round]
  refine ⟨arrives.isConvexCycle positive enough, ⟨a, ha, b, hb, apart, between, ?_⟩, ?_⟩
  · intro v member
    simp only [bows, List.mem_append, List.mem_map] at member
    rcases member with ⟨i, -, rfl⟩ | ⟨i, -, rfl⟩
    · exact Or.inr (length_bow_sub arrives.unit positive.le _ i)
    · exact Or.inl (length_bow_sub arrives.swap.unit positive.le _ i)
  · intro s side p member
    obtain ⟨t, low, high, rfl⟩ := between p member
    rcases Arrives.mem_sides_bows.mp side with here | there
    · -- Seen from the last end, the points lie backwards along the segment.
      rw [← along_swap]
      exact arrives.turn_pos_of_along positive enough here (sub_nonneg.mpr high)
    · exact arrives.swap.turn_pos_of_along positive enough there low

def upright : List (Point ℝ) := [⟨0, 1⟩, ⟨0, -1⟩, ⟨0, 0⟩]

theorem outline_capsule_of_upright :
    OnLine upright ∧ 2 ≤ upright.toFinset.card ∧ (0 : ℝ) < 20 ∧
      IsConvexCycle (outline ⟨20, false, 8⟩ upright) ∧
      ∀ s ∈ sides (outline ⟨20, false, 8⟩ upright), 0 < turn s.1 s.2 ⟨0, 0⟩ := by
  have apart : (⟨0, -1⟩ : Point ℝ) ≠ ⟨0, 1⟩ := by norm_num
  have flat : OnLine upright := onLine_of_flat apart (by simp [upright, turn])
  have several : 2 ≤ upright.toFinset.card :=
    Finset.one_lt_card.mpr ⟨⟨0, -1⟩, by simp [upright], ⟨0, 1⟩, by simp [upright], apart⟩
  have positive : (0 : ℝ) < 20 := by norm_num
  obtain ⟨convex, -, inside⟩ := outline_capsule flat several positive 8
  exact ⟨flat, several, positive, convex, fun s side => inside s side _ (by simp [upright])⟩

end Outline

end CapabilityAtlas.Geometry
