import Mathlib.Algebra.Order.Group.Unbundled.Abs
import MovingLight.Proofs.Formation.Frame
import MovingLight.Proofs.Rig.Preset

/-!
# Symmetry — two halves of a stage that mirror each other

Seven formations look the same from behind the stage. A head turns as far to one side as the head
opposite to it turns to the other (`Formation.Opposed`), and both are tilted alike. And if the
degrees they are told to spread by are not negative, the further right a head stands the further
right it turns, so no two beams cross (`Formation.pan_place_mono`).

Each gets there in its own way: by the distance from the middle with its sign, by a side and
a distance, of which nothing is left near the middle, or by a table. Of a table it is enough
that it is antisymmetric and goes up.

All this is about the exact reading. In single precision a third of a stage and what is left of
it are rounded apart from each other, and so are the beams that go by them.
-/

namespace MovingLight

open Scalar

variable [ExactReading]

/-! ## Slots -/

namespace Slot

variable {s s' : Slot ℚ} {n i j : Nat}

/-- **Two slots are opposite**: as far from the middle, one to either side. -/
structure Opposite (s s' : Slot ℚ) : Prop where
  position : s'.position = 1 - s.position
  signedDistance : s'.signedDistance = -s.signedDistance

theorem opposite_ofIndex (h : i < n) :
    Opposite (ofIndex n i : Slot ℚ) (ofIndex n (n - 1 - i)) := by
  have position : (ofIndex n (n - 1 - i) : Slot ℚ).position = 1 - (ofIndex n i).position := by
    unfold ofIndex
    dsimp only
    split
    · norm_num
    · rename_i several
      have steps : ((n - 1 : Nat) : ℚ) ≠ 0 := Nat.cast_ne_zero.mpr (by omega)
      unfold evenTime
      rw [Nat.cast_sub (by omega)]
      field_simp
  refine ⟨position, ?_⟩
  show ((ofIndex n (n - 1 - i) : Slot ℚ).position - 0.5) * 2 =
    -(((ofIndex n i : Slot ℚ).position - 0.5) * 2)
  rw [position]
  ring

theorem Opposite.distance (h : Opposite s s') : s'.distance = s.distance := by
  show |s'.signedDistance| = |s.signedDistance|
  rw [h.signedDistance, abs_neg]

/-- One slot is not to the right of another. -/
structure Before (s s' : Slot ℚ) : Prop where
  position : s.position ≤ s'.position
  signedDistance : s.signedDistance ≤ s'.signedDistance

theorem before_ofIndex (h : i ≤ j) : Before (ofIndex n i : Slot ℚ) (ofIndex n j) := by
  have position : (ofIndex n i : Slot ℚ).position ≤ (ofIndex n j).position := by
    unfold ofIndex
    dsimp only
    split
    · exact le_refl _
    · exact evenTime_le h n
  refine ⟨position, ?_⟩
  show ((ofIndex n i : Slot ℚ).position - 0.5) * 2 ≤ ((ofIndex n j : Slot ℚ).position - 0.5) * 2
  linarith

/-- Side and distance together are the distance with its sign, but for what is near the middle. -/
theorem side_mul_distance (s : Slot ℚ) : s.side * s.distance =
    if |s.signedDistance| < 0.000001 then 0 else s.signedDistance := by
  have turned : signum s.signedDistance * |s.signedDistance| = s.signedDistance := by
    show (if s.signedDistance < 0 then (-1 : ℚ) else 1) * |s.signedDistance| = s.signedDistance
    split
    · rename_i left
      rw [abs_of_neg left, neg_one_mul, neg_neg]
    · rename_i right
      rw [abs_of_nonneg (not_lt.mp right), one_mul]
  show (if |s.signedDistance| < 0.000001 then (0 : ℚ) else signum s.signedDistance) *
    |s.signedDistance| = _
  rw [ite_mul, zero_mul, turned]

theorem Opposite.side_mul_distance (h : Opposite s s') :
    s'.side * s'.distance = -(s.side * s.distance) := by
  rw [s.side_mul_distance, s'.side_mul_distance, h.signedDistance, abs_neg]
  split
  · exact neg_zero.symm
  · rfl

theorem Before.side_mul_distance_le (h : Before s s') :
    s.side * s.distance ≤ s'.side * s'.distance := by
  have further := h.signedDistance
  rw [s.side_mul_distance, s'.side_mul_distance]
  split <;> rename_i near <;> split <;> rename_i near'
  · exact le_refl _
  · rw [abs_lt] at near
    rcases le_abs.mp (not_lt.mp near') with right | left <;> linarith
  · rw [abs_lt] at near'
    rcases le_abs.mp (not_lt.mp near) with right | left <;> linarith
  · exact further

end Slot

namespace Formation

variable (p : Params) (base : Movement ℚ) {s s' : Slot ℚ}

/-! ## Opposite heads -/

/-- **Two movements mirror each other** about that of the instruction. -/
structure Opposed (base m m' : Movement ℚ) : Prop where
  pan : m.panOffsetDeg + m'.panOffsetDeg = 2 * base.panOffsetDeg
  tilt : m.tiltOffsetDeg = m'.tiltOffsetDeg

theorem opposed_offsetBy {pan pan' tilt tilt' : ℚ} (turned : pan' = -pan) (level : tilt' = tilt) :
    Opposed base (base.offsetBy pan tilt) (base.offsetBy pan' tilt') := by
  subst turned level
  refine ⟨?_, rfl⟩
  show base.panOffsetDeg + pan + (base.panOffsetDeg + -pan) = 2 * base.panOffsetDeg
  ring

theorem opposed_mirror (h : Slot.Opposite s s') :
    Opposed base (placeMirror p base s) (placeMirror p base s') := by
  refine opposed_offsetBy base ?_ ?_
  · rw [h.signedDistance, neg_mul]
  · rw [h.distance]

theorem opposed_chevron (h : Slot.Opposite s s') :
    Opposed base (placeChevron p base s) (placeChevron p base s') := by
  refine opposed_offsetBy base ?_ ?_
  · -- what is known of side and distance is their product
    rw [mul_assoc, ← mul_assoc, h.side_mul_distance]
    ring
  · rw [h.distance]

theorem opposed_rainbow (h : Slot.Opposite s s') :
    Opposed base (placeRainbow p base s) (placeRainbow p base s') := by
  have edge : Scalar.abs (s'.position - 0.5) = Scalar.abs (s.position - 0.5) := by
    show |s'.position - 0.5| = |s.position - 0.5|
    rw [h.position, ← abs_neg]
    ring_nf
  refine opposed_offsetBy base ?_ ?_
  · rw [h.position]
    ring
  · rw [edge]

theorem opposed_radiating (reach : ℚ) (h : Slot.Opposite s s') :
    Opposed base (placeRadiating p reach base s) (placeRadiating p reach base s') := by
  refine opposed_offsetBy base ?_ rfl
  rw [h.position]
  ring

/-- **A table is balanced**: it goes up, and from either end alike. -/
structure Balanced (preset : List ℚ) : Prop where
  size : preset.length ≤ UInt64.size
  antisymmetric : preset.reverse = preset.map Neg.neg
  ordered : preset.Pairwise (· ≤ ·)

omit [ExactReading] in
theorem balanced_four {inner outer : ℚ} (nonneg : 0 ≤ inner) (h : inner ≤ outer) :
    Balanced [-outer, -inner, inner, outer] where
  size := by
    show 4 ≤ UInt64.size
    decide
  antisymmetric := by simp
  ordered := by
    simp only [List.pairwise_cons, List.mem_cons, List.not_mem_nil, or_false, forall_eq_or_imp,
      forall_eq, false_implies, implies_true, List.Pairwise.nil, and_true]
    refine ⟨⟨?_, ?_, ?_⟩, ⟨?_, ?_⟩, h⟩ <;> linarith

theorem balanced_audience (coverage : String) : Balanced (audiencePreset coverage) := by
  unfold audiencePreset
  split
  · exact balanced_four (by norm_num) (by norm_num)
  · exact balanced_four (by norm_num) (by norm_num)
  · exact balanced_four (by norm_num) (by norm_num)
  · exact balanced_four (by norm_num) (by norm_num)

theorem balanced_wash (spacing : String) : Balanced (washPreset spacing) := by
  unfold washPreset
  split
  · have flat := balanced_four (le_refl 0) (le_refl 0)
    rwa [neg_zero] at flat
  · exact balanced_four (by norm_num) (by norm_num)
  · exact balanced_four (by norm_num) (by norm_num)

theorem Balanced.presetAt_opposite {preset : List ℚ} (h : Balanced preset) (x : ℚ) :
    presetAt preset (1 - x) = -presetAt preset x := by
  have turned := presetAt_reverse h.size x
  rw [h.antisymmetric, presetAt_map_neg h.size] at turned
  rw [← turned, neg_neg]

theorem opposed_preset {preset : List ℚ} (balanced : Balanced preset) (h : Slot.Opposite s s') :
    Opposed base (placePreset preset base s) (placePreset preset base s') := by
  refine opposed_offsetBy base ?_ rfl
  rw [h.position, balanced.presetAt_opposite]

/-- The formations that mirror. -/
def mirrored : List Formation := [mirror, chevron, rainbow, audience, wash, centerOut, outsideIn]

omit [ExactReading] in
theorem forall_mirrored {P : Formation → Prop} : (∀ f ∈ mirrored, P f) ↔
    P mirror ∧ P chevron ∧ P rainbow ∧ P audience ∧ P wash ∧ P centerOut ∧ P outsideIn := by
  simp [mirrored]

variable (seed : UInt64)

theorem opposed_place (opposite : Slot.Opposite s s') :
    ∀ f ∈ mirrored, Opposed base (f.place p seed base s) (f.place p seed base s') :=
  forall_mirrored.mpr ⟨opposed_mirror p base opposite, opposed_chevron p base opposite,
    opposed_rainbow p base opposite, opposed_preset base (balanced_audience _) opposite,
    opposed_preset base (balanced_wash _) opposite, opposed_radiating p base _ opposite,
    opposed_radiating p base _ opposite⟩

/-! ## Heads from left to right -/

/-- The degrees a formation is told to spread its heads by. A table is not told. -/
def spreadDeg {α : Type} [Scalar α] (p : Params) : Formation → α
  | mirror => p.number "pan_spread_deg" 30
  | chevron => p.number "pan_spread_deg" 40
  | rainbow => p.number "arc_width_deg" 90
  | centerOut | outsideIn => p.number "max_spread_deg" 45
  | _ => 0

theorem progress_mem : (progress p : ℚ) ∈ Set.Icc (0 : ℚ) 1 :=
  (amid_progress p).mem_of_le zero_le_one (le_refl _)

section LeftToRight

variable (before : Slot.Before s s')

include before

theorem pan_mirror_le (spread : 0 ≤ (spreadDeg p mirror : ℚ)) :
    (placeMirror p base s).panOffsetDeg ≤ (placeMirror p base s').panOffsetDeg :=
  add_le_add_right (mul_le_mul_of_nonneg_right before.signedDistance spread) _

theorem pan_chevron_le (spread : 0 ≤ (spreadDeg p chevron : ℚ)) :
    (placeChevron p base s).panOffsetDeg ≤ (placeChevron p base s').panOffsetDeg := by
  have spread : 0 ≤ (p.number "pan_spread_deg" 40 : ℚ) := spread
  have factor := ((amid_narrowed (α := ℚ) p).mem_of_le zero_le_one (le_refl _)).1
  have wedge := mul_le_mul_of_nonneg_right before.side_mul_distance_le (mul_nonneg spread factor)
  refine add_le_add_right ?_ _
  simpa only [mul_assoc] using wedge

theorem pan_preset_le {preset : List ℚ} (balanced : Balanced preset) :
    (placePreset preset base s).panOffsetDeg ≤ (placePreset preset base s').panOffsetDeg :=
  add_le_add_right (presetAt_mono balanced.size balanced.ordered before.position) _

theorem pan_rainbow_le (spread : 0 ≤ (spreadDeg p rainbow : ℚ)) :
    (placeRainbow p base s).panOffsetDeg ≤ (placeRainbow p base s').panOffsetDeg :=
  add_le_add_right (add_le_add_right (mul_le_mul_of_nonneg_right before.position spread) _) _

theorem pan_radiating_le {reach : ℚ} (spread : 0 ≤ (p.number "max_spread_deg" 45 : ℚ))
    (nonneg : 0 ≤ reach) : (placeRadiating p reach base s).panOffsetDeg ≤
      (placeRadiating p reach base s').panOffsetDeg := by
  have out : (s.position - 0.5) * 2 ≤ (s'.position - 0.5) * 2 := by
    have position := before.position
    linarith
  refine add_le_add_right ?_ _
  exact mul_le_mul_of_nonneg_right (mul_le_mul_of_nonneg_right out spread) nonneg

/-- **Beams do not cross.** -/
theorem pan_place_le : ∀ f ∈ mirrored, 0 ≤ (spreadDeg p f : ℚ) →
    (f.place p seed base s).panOffsetDeg ≤ (f.place p seed base s').panOffsetDeg := by
  obtain ⟨nonneg, le_one⟩ := progress_mem p
  exact forall_mirrored.mpr ⟨pan_mirror_le p base before, pan_chevron_le p base before,
    pan_rainbow_le p base before, fun _ => pan_preset_le base before (balanced_audience _),
    fun _ => pan_preset_le base before (balanced_wash _),
    fun spread => pan_radiating_le p base before spread nonneg,
    fun spread => pan_radiating_le p base before spread (sub_nonneg.mpr le_one)⟩

end LeftToRight

/-! ## A whole selection -/

/-- **Seven formations mirror the left half of a stage in the right one**, however many heads there
are. Read exactly, a head turns as far from where the instruction points as the head opposite to it
turns to the other side, and both are tilted alike. Where the degrees that the formation is told to
spread by are not negative, pans never go down from left to right. -/
theorem distribute_mirrors {f : Formation} (h : f ∈ mirrored) (ids : List String) :
    let placed := f.distribute p base ids
    (∀ (i : Nat) (inside : i < placed.length),
      placed[i].panOffsetDeg + placed[placed.length - 1 - i].panOffsetDeg =
        2 * base.panOffsetDeg ∧
      placed[i].tiltOffsetDeg = placed[placed.length - 1 - i].tiltOffsetDeg) ∧
    (0 ≤ (spreadDeg p f : ℚ) → (placed.map (·.panOffsetDeg)).Pairwise (· ≤ ·)) := by
  intro placed
  have count : placed.length = ids.length := length_distribute p base f
  refine ⟨fun i inside => ?_, fun spread => ?_⟩
  · have opposite := Slot.opposite_ofIndex (count ▸ inside)
    have mirror := opposed_place p base (Formation.seed p ids) opposite f h
    rw [getElem_distribute, getElem_distribute, count]
    exact ⟨mirror.pan, mirror.tilt⟩
  · refine List.pairwise_map.mpr (List.pairwise_iff_getElem.mpr fun i j hi hj before => ?_)
    rw [getElem_distribute, getElem_distribute]
    exact pan_place_le p base _ (Slot.before_ofIndex (Nat.le_of_lt before)) f h spread

omit [ExactReading] in
/-- Five heads in a wedge about a movement that is itself off the middle. -/
theorem distribute_mirrors_of_wedge :
    letI := ExactReading.parabolic
    let p : Params := [("pan_spread_deg", .number (some (.whole 50))),
      ("tightness", .string (some "0.25"))]
    let base : Movement ℚ := { Movement.ofPattern "figure8" .fast with panOffsetDeg := 12 }
    let placed := chevron.distribute p base ["MH1", "MH2", "MH3", "MH4", "MH5"]
    chevron ∈ mirrored ∧ 0 ≤ (spreadDeg p chevron : ℚ) ∧
      (∀ (i : Nat) (inside : i < placed.length),
        placed[i].panOffsetDeg + placed[placed.length - 1 - i].panOffsetDeg =
          2 * base.panOffsetDeg ∧
        placed[i].tiltOffsetDeg = placed[placed.length - 1 - i].tiltOffsetDeg) ∧
      (placed.map (·.panOffsetDeg)).Pairwise (· ≤ ·) := by
  let reading := ExactReading.parabolic
  intro p base placed
  have listed : chevron ∈ mirrored := by decide
  have spread : 0 ≤ (spreadDeg p chevron : ℚ) := by decide +kernel
  obtain ⟨mirrors, up⟩ := distribute_mirrors p base listed ["MH1", "MH2", "MH3", "MH4", "MH5"]
  exact ⟨listed, spread, mirrors, up spread⟩

end Formation

end MovingLight
