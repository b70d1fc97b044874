import MovingLight.Proofs.Formation
import MovingLight.Proofs.Rig.Slot

/-!
# Frames — two heads that all others stay between

Most formations take the place of a slot through sums and products that keep what lies between
where it is. So what they give any head of any selection lies between what they give two
heads of a small one (`Formation.Frames`): the two edges for a pan, an edge and the middle for a
tilt that grows with the distance from it. A formation of which both offsets are framed like
this, and which changes nothing else, is `Formation.Framed`.

The bent ones go through a product of two numbers that vary. On an arc it is a square of
something between zero and one. In a chevron it is the side times the distance, and in a cross
the side times how far out a head is: each half is a part of what its edge gets, and nothing, in
the middle, is between both edges.

A wash that is told to be tight reads a table of zeros. The other tables set the edges apart,
whichever entries they are read between (`Scalar.FormationLaws.apart_entries`).
-/

namespace MovingLight

open Scalar

namespace Formation

/-- A number read off a table of four, from a given entry on. -/
def readFrom {α : Type} [Scalar α] (preset : List α) (l : Nat) (position : α) : α :=
  between (preset.getD l 0) (preset.getD (l + 1) 0)
    (clampUnit position * ((3 : Nat) : α) - (l : α))

/-- The tables that are not flat. -/
def unevenTables (α : Type) [Scalar α] : List (List α) :=
  [audiencePreset "narrow", audiencePreset "medium", audiencePreset "wide", audiencePreset "full",
    washPreset "medium", washPreset "wide"]

end Formation

/-- **The few numbers formations are built of.** -/
class Scalar.FormationLaws (α : Type) [Scalar α] : Prop where
  isFinite_fractions : isFinite (0.3 : α) = true ∧ isFinite (0.35 : α) = true ∧
    isFinite (0.65 : α) = true
  /-- A chevron is narrowed to some part of itself. -/
  narrowed_mem : ((0 : α) ≤ 0.35 + 0.65 * 0 ∧ (0.35 + 0.65 * 0 : α) ≤ 1) ∧
    (0 : α) ≤ 0.35 + 0.65 * 1 ∧ (0.35 + 0.65 * 1 : α) ≤ 1
  /-- The inner heads of a chevron are those nearer than this. -/
  inner : (0 : α) < 0.6 ∧ ¬(1 : α) < 0.6
  /-- An arc is measured from the middle, out to one at either edge. -/
  arc_edges : (-0.5 ≤ (0 - 0.5 : α) ∧ (0 - 0.5 : α) ≤ 0.5) ∧
    -0.5 ≤ (1 - 0.5 : α) ∧ (1 - 0.5 : α) ≤ 0.5
  arc_ends : 2 * abs (0 - 0.5 : α) = 1 ∧ 2 * abs (0.5 - 0.5 : α) = 0 ∧ (2 * 0 : α) = 0 ∧
    (2 * 0.5 : α) = 1
  isFinite_arc : isFinite (1 - 0 * 0 : α) = true ∧ isFinite (1 - 1 * 1 : α) = true
  isFinite_reach : isFinite (1 - 0 : α) = true ∧ isFinite (1 - 1 : α) = true
  signs : (1 * 1 : α) = 1 ∧ (1 * -1 : α) = -1 ∧ (-1 * 1 : α) = -1 ∧ (-1 * -1 : α) = 1
  whole : ((1 : Nat) : α) / ((1 : Nat) : α) = 1
  flat : (0 - 0 : α) = ((0 : Nat) : α)
  isFinite_entries : isFinite ((3 : Nat) : α) = true
  isFinite_entry : ∀ l : Nat, l < 3 → isFinite (l : α) = true ∧
    isFinite (0 * ((3 : Nat) : α) - l) = true ∧ isFinite (1 * ((3 : Nat) : α) - l) = true
  /-- A table that is not flat sets the edges apart, between whichever entries it is read. -/
  apart_entries : ∀ preset ∈ Formation.unevenTables α, ∀ k < 3, ∀ l < 3,
    Movement.apart (0 + Formation.readFrom preset k 1) (0 + Formation.readFrom preset l 0) = true
  /-- Half a turn is not nothing. -/
  apart_half_turn : Movement.apart (emod (0 + ((1 : Nat) : α) * (360 / ((2 : Nat) : α))) 360)
    (emod (0 + ((0 : Nat) : α) * (360 / ((2 : Nat) : α))) 360) = true
  /-- The first of any number of heads on a circle stands where the circle starts. -/
  first_angle : ∀ n : Nat, 0 < n → ((0 : Nat) : α) * 360 / (n : α) * degree = 0

theorem Scalar.first_angle_exact [ExactReading] (n : Nat) :
    ((0 : Nat) : ℚ) * 360 / (n : ℚ) * degree = 0 := by
  show ((0 : ℕ) : ℚ) * 360 / (n : ℚ) * _ = 0
  norm_num

/-- Nothing that a reading leaves open goes into these numbers but one degree, so they are computed
in a reading that can be. -/
theorem Scalar.formationLaws_parabolic :
    letI := ExactReading.parabolic
    FormationLaws ℚ := by
  let reading := ExactReading.parabolic
  exact {
    isFinite_fractions := by decide +kernel
    narrowed_mem := by decide +kernel
    inner := by decide +kernel
    arc_edges := by decide +kernel
    arc_ends := by decide +kernel
    isFinite_arc := by decide +kernel
    isFinite_reach := by decide +kernel
    signs := by decide +kernel
    whole := by decide +kernel
    flat := by decide +kernel
    isFinite_entries := rfl
    isFinite_entry := fun _ _ => ⟨rfl, rfl, rfl⟩
    apart_entries := by decide +kernel
    apart_half_turn := by decide +kernel
    first_angle := fun n _ => first_angle_exact n }

instance [ExactReading] : FormationLaws ℚ :=
  { formationLaws_parabolic with first_angle := fun n _ => first_angle_exact n }

instance : FormationLaws Float32 where
  isFinite_fractions := by decide +kernel
  narrowed_mem := by decide +kernel
  inner := by decide +kernel
  arc_edges := by decide +kernel
  arc_ends := by decide +kernel
  isFinite_arc := by decide +kernel
  isFinite_reach := by decide +kernel
  signs := by decide +kernel
  whole := by decide +kernel
  flat := by decide +kernel
  isFinite_entries := by decide +kernel
  isFinite_entry := by decide +kernel
  apart_entries := by decide +kernel
  apart_half_turn := by decide +kernel
  first_angle n h := by
    have start : ((0 : Nat) : Float32) * 360 = 0 := by decide +kernel
    show ((0 : Nat) : Float32) * 360 / (n : Float32) * degree = 0
    rw [start, Single.zero_div_natCast h]
    decide +kernel

variable {α : Type} [Scalar α]

/-- A parameter is finite if what stands in for it is. -/
theorem Params.isFinite_number (p : Params) (key : String) {default : α}
    (h : isFinite default = true) : isFinite (p.number key default) = true := by
  unfold Params.number
  cases given : (p.number? key : Option α) with
  | none => exact h
  | some x => exact (Option.mem_filter_iff.mp given).2

namespace Scalar

variable {x y c : α}

theorem clampUnit_mem_unit [OrderLaws α] [MonotoneLaws α] (h : x ≤ x) :
    0 ≤ clampUnit x ∧ clampUnit x ≤ 1 := by
  have zero_le_one : (0 : α) ≤ 1 := OrderLaws.zero_le_one
  obtain ⟨zero, one⟩ := OrderLaws.le_self_of_le _ _ zero_le_one
  unfold clampUnit clamp
  split
  · exact ⟨zero, zero_le_one⟩
  · rename_i above
    split
    · exact ⟨zero_le_one, one⟩
    · rename_i below
      exact ⟨MonotoneLaws.le_of_not_lt _ _ h zero above, MonotoneLaws.le_of_not_lt _ _ one h below⟩

theorem isFinite_of_mem_unit [MonotoneLaws α] [StageLaws α] (h : 0 ≤ x ∧ x ≤ 1) :
    isFinite x = true :=
  MonotoneLaws.isFinite_of_mem 0 1 x Slot.isFinite_zero Slot.isFinite_one h.1 h.2

theorem Null.isFinite [MonotoneLaws α] [StageLaws α] (h : Null x) : Scalar.isFinite x = true :=
  MonotoneLaws.isFinite_of_mem 0 0 x Slot.isFinite_zero Slot.isFinite_zero h.2 h.1

theorem isFinite_mul_of_mem_unit [MonotoneLaws α] [StageLaws α] (h : 0 ≤ c ∧ c ≤ 1)
    (finite : isFinite x = true) : isFinite (c * x) = true :=
  MonotoneLaws.isFinite_mul c x (MonotoneLaws.le_trans _ _ _ StageLaws.neg_one_le_zero h.1) h.2
    finite

variable [OrderLaws α]

/-- Once to either side. -/
theorem isFinite_sides [MonotoneLaws α] (h : isFinite x = true) :
    isFinite (-1 * x) = true ∧ isFinite (1 * x) = true := by
  obtain ⟨left, right⟩ := OrderLaws.le_self_of_le (-1 : α) 1 OrderLaws.neg_one_le_one
  exact ⟨MonotoneLaws.isFinite_mul _ _ left OrderLaws.neg_one_le_one h,
    MonotoneLaws.isFinite_mul _ _ OrderLaws.neg_one_le_one right h⟩

theorem null_zero : Null (0 : α) := ⟨zero_le_zero, zero_le_zero⟩

variable [MonotoneLaws α] [StageLaws α]

theorem isFinite_clampUnit (h : isFinite x = true) : isFinite (clampUnit x) = true :=
  isFinite_of_mem_unit (clampUnit_mem_unit (OrderLaws.le_self_of_isFinite x h))

/-- The square of a part of one is a part of one. -/
theorem amid_mul_self (h : Amid 0 1 x) : Amid (0 * 0) (1 * 1) (x * x) := by
  intro definite
  have definite_x := (MonotoneLaws.le_self_of_mul x x definite).1
  have unit := h.mem_of_le OrderLaws.zero_le_one definite_x
  have finite := isFinite_of_mem_unit unit
  have le {a b : α} (k : α) (h : a ≤ b) (ha : isFinite a = true) (hb : isFinite b = true)
      (hk : isFinite k = true) (nonneg : 0 ≤ k) : a * k ≤ b * k :=
    MonotoneLaws.mul_le_mul_right a b k h ha hb hk nonneg
  refine Or.inl ⟨?_, ?_⟩
  · have nonneg : 0 ≤ x * x := MonotoneLaws.le_trans _ _ _ (null_zero.mul_right finite).2
      (le x unit.1 Slot.isFinite_zero finite finite unit.1)
    exact MonotoneLaws.le_trans _ _ _ (null_zero.mul_right Slot.isFinite_zero).1 nonneg
  · refine MonotoneLaws.le_trans _ _ _ (le x unit.2 finite Slot.isFinite_one finite unit.1) ?_
    rw [MonotoneLaws.mul_comm 1 x]
    exact le 1 unit.2 finite Slot.isFinite_one Slot.isFinite_one OrderLaws.zero_le_one

end Scalar

namespace Formation

/-- **What two heads of a trial selection get frames what all others get.** -/
def Frames (g : Slot α → α) : Prop :=
  ∃ n ∈ trialSizes, ∃ j < n, ∀ m i, i < m →
    Amid (g (.ofIndex n 0)) (g (.ofIndex n j)) (g (.ofIndex m i))

theorem Frames.of_edges {g : Slot α → α}
    (h : ∀ m i, i < m → Amid (g (.ofIndex 2 0)) (g (.ofIndex 2 1)) (g (.ofIndex m i))) :
    Frames g := ⟨2, by decide, 1, by decide, h⟩

theorem Frames.of_middle {g : Slot α → α}
    (h : ∀ m i, i < m → Amid (g (.ofIndex 3 0)) (g (.ofIndex 3 1)) (g (.ofIndex m i))) :
    Frames g := ⟨3, by decide, 1, by decide, h⟩

theorem frames_const (x : α) : Frames fun _ => x := Frames.of_edges fun _ _ _ => Amid.refl x

/-- **The offsets of a formation are framed by trial selections**, and offsets are all that it
changes. -/
structure Framed (place : Slot α → Movement α) : Prop where
  pan : Frames fun s => (place s).panOffsetDeg
  tilt : Frames fun s => (place s).tiltOffsetDeg
  phase : ∀ s s', (place s).phaseDeg = (place s').phaseDeg := by exact fun _ _ => rfl
  role : ∀ s s', (place s).tiltRole = (place s').tiltRole := by exact fun _ _ => rfl

theorem isFinite_number [StageLaws α] (p : Params) (key : String) {n : Nat} (h : n < 256) :
    isFinite (p.number key (OfNat.ofNat n) : α) = true :=
  p.isFinite_number key (StageLaws.isFinite_literal n h)

/-- Progress is some part of the way. -/
theorem amid_progress [OrderLaws α] [MonotoneLaws α] (p : Params) : Amid 0 1 (progress p : α) := by
  unfold progress
  cases given : (p.number? "progress" : Option α) with
  | some x =>
    have finite : isFinite x = true := (Option.mem_filter_iff.mp given).2
    have unit := clampUnit_mem_unit (OrderLaws.le_self_of_isFinite x finite)
    exact Amid.of_le unit.1 unit.2
  | none =>
    dsimp only
    split
    · exact Amid.of_le OrderLaws.zero_le_one
        (OrderLaws.le_self_of_le (0 : α) 1 OrderLaws.zero_le_one).2
    · intro definite
      exact Or.inl (MonotoneLaws.ratio_mem _ _ (Nat.min_le_right _ _) definite)

section Framed

variable [OrderLaws α] [MonotoneLaws α] [StageLaws α] (p : Params)

theorem framed_mirror : Framed (placeMirror p (Movement.hold : Movement α)) where
  pan := Frames.of_edges fun m i h => by
    show Amid (0 + (Slot.ofIndex 2 0 : Slot α).signedDistance * _)
      (0 + (Slot.ofIndex 2 1 : Slot α).signedDistance * _) (0 + _ * _)
    rw [Slot.ofIndex_left, Slot.ofIndex_right]
    have scaled := (Slot.amid_signedDistance h).mul_right Slot.isFinite_neg_one Slot.isFinite_one
      fun _ => isFinite_number (α := α) p "pan_spread_deg" (n := 30) (by norm_num)
    exact scaled.add_left Slot.isFinite_zero
  tilt := Frames.of_middle fun m i h => by
    show Amid (0 + (_ + (Slot.ofIndex 3 0 : Slot α).distance * _))
      (0 + (_ + (Slot.ofIndex 3 1 : Slot α).distance * _)) (0 + (_ + _ * _))
    rw [Slot.distance_outer, Slot.distance_middle]
    have scaled := (Slot.amid_distance h).symm.mul_right Slot.isFinite_one Slot.isFinite_zero
      fun _ => isFinite_number (α := α) p "tilt_spread_deg" (n := 0) (by norm_num)
    exact (scaled.add_left (isFinite_number p _ (by norm_num))).add_left Slot.isFinite_zero

theorem framed_fan : Framed (placeFan p (Movement.hold : Movement α)) where
  pan := Frames.of_edges fun m i h => by
    show Amid (0 + (((Slot.ofIndex 2 0 : Slot α).position - 0.5) * _ + _))
      (0 + (((Slot.ofIndex 2 1 : Slot α).position - 0.5) * _ + _)) (0 + ((_ - 0.5) * _ + _))
    rw [Slot.ofIndex_left, Slot.ofIndex_right]
    have scaled := ((Slot.amid_position h).sub_right StageLaws.isFinite_middle).mul_right
      StageLaws.isFinite_from_middle.1 StageLaws.isFinite_from_middle.2
      fun _ => isFinite_number (α := α) p "pan_spread_deg" (n := 60) (by norm_num)
    exact (scaled.add_right (isFinite_number p _ (by norm_num))).add_left Slot.isFinite_zero
  tilt := frames_const _

/-- How far a position lies from the middle of an arc. -/
theorem amid_arc [FormationLaws α] {x : α} (h : Amid 0 1 x) : Amid 0 1 (2 * abs (x - 0.5)) := by
  obtain ⟨⟨left_above, left_below⟩, right_above, right_below⟩ := FormationLaws.arc_edges (α := α)
  have inside : Amid (-0.5) 0.5 (x - 0.5) := Amid.trans (Amid.of_le left_above left_below)
    (Amid.of_le right_above right_below) (h.sub_right StageLaws.isFinite_middle)
  have across : (-0.5 : α) ≤ 0.5 := MonotoneLaws.le_trans _ _ _ left_above left_below
  have size : Amid 0 0.5 (abs (x - 0.5)) := by
    intro definite
    have definite_x := MonotoneLaws.le_self_of_abs _ definite
    obtain ⟨above, below⟩ := inside.mem_of_le across definite_x
    exact Or.inl ⟨MonotoneLaws.abs_nonneg _ definite_x, MonotoneLaws.abs_le _ _ above below⟩
  have doubled := size.mul_left Slot.isFinite_zero StageLaws.isFinite_middle
    fun _ => StageLaws.isFinite_literal (α := α) 2 (by norm_num)
  rwa [FormationLaws.arc_ends.2.2.1, FormationLaws.arc_ends.2.2.2] at doubled

theorem framed_rainbow [FormationLaws α] :
    Framed (placeRainbow p (Movement.hold : Movement α)) where
  pan := Frames.of_edges fun m i h => by
    show Amid (0 + (_ + (Slot.ofIndex 2 0 : Slot α).position * _))
      (0 + (_ + (Slot.ofIndex 2 1 : Slot α).position * _)) (0 + (_ + _ * _))
    rw [Slot.ofIndex_left, Slot.ofIndex_right]
    have arc : isFinite (p.number "arc_width_deg" 90 : α) = true :=
      isFinite_number p _ (by norm_num)
    have scaled := (Slot.amid_position h).mul_right Slot.isFinite_zero Slot.isFinite_one
      fun _ => arc
    have edge := MonotoneLaws.isFinite_half _ (MonotoneLaws.isFinite_neg _ arc)
    exact (scaled.add_left edge).add_left Slot.isFinite_zero
  tilt := Frames.of_middle fun m i h => by
    have lift : isFinite (p.number "tilt_lift_deg" 15 : α) = true :=
      isFinite_number p _ (by norm_num)
    obtain ⟨flat, high⟩ := FormationLaws.isFinite_arc (α := α)
    unfold placeRainbow
    dsimp only [Movement.offsetBy]
    cases p.flag "curved" true with
    | false => exact Amid.refl _
    | true =>
      rw [Slot.ofIndex_outer, Slot.ofIndex_middle]
      dsimp only
      rw [FormationLaws.arc_ends.1, FormationLaws.arc_ends.2.1]
      have edge := amid_arc (Slot.amid_position (α := α) h)
      have curved := (amid_mul_self edge).symm.sub_left (Slot.isFinite_one (α := α))
      exact (curved.mul_left high flat fun _ => lift).add_left Slot.isFinite_zero

theorem framed_spotlight [FormationLaws α] :
    Framed (placeSpotlight p (Movement.hold : Movement α)) where
  pan := Frames.of_edges fun m i h => by
    show Amid (0 + (_ + (Slot.ofIndex 2 0 : Slot α).signedDistance * _ * _))
      (0 + (_ + (Slot.ofIndex 2 1 : Slot α).signedDistance * _ * _)) (0 + (_ + _ * _ * _))
    rw [Slot.ofIndex_left, Slot.ofIndex_right]
    have spacing : isFinite (p.number "natural_spacing_deg" 30 : α) = true :=
      isFinite_number p _ (by norm_num)
    have spread : isFinite (clampUnit (p.number "spread" 0.3 : α)) = true :=
      isFinite_clampUnit (p.isFinite_number _ FormationLaws.isFinite_fractions.1)
    have natural := (Slot.amid_signedDistance h).mul_right Slot.isFinite_neg_one Slot.isFinite_one
      fun _ => spacing
    have drawn := natural.mul_right (isFinite_sides spacing).1 (isFinite_sides spacing).2
      fun _ => spread
    exact (drawn.add_left (isFinite_number p _ (by norm_num))).add_left Slot.isFinite_zero
  tilt := frames_const _

theorem framed_radiating {reach : α} (h : reach ≤ reach → isFinite reach = true) :
    Framed (placeRadiating p reach (Movement.hold : Movement α)) where
  pan := Frames.of_edges fun m i inside => by
    show Amid (0 + (Slot.ofIndex 2 0 : Slot α).signedDistance * _ * _)
      (0 + (Slot.ofIndex 2 1 : Slot α).signedDistance * _ * _) (0 + _ * _ * _)
    rw [Slot.ofIndex_left, Slot.ofIndex_right]
    have spread : isFinite (p.number "max_spread_deg" 45 : α) = true :=
      isFinite_number p _ (by norm_num)
    have scaled := (Slot.amid_signedDistance inside).mul_right Slot.isFinite_neg_one
      Slot.isFinite_one fun _ => spread
    exact (scaled.mul_right (isFinite_sides spread).1 (isFinite_sides spread).2 h).add_left
      Slot.isFinite_zero
  tilt := frames_const _

theorem framed_centerOut :
    Framed (placeRadiating p (progress p) (Movement.hold : Movement α)) :=
  framed_radiating p fun definite =>
    (amid_progress p).isFinite definite Slot.isFinite_zero Slot.isFinite_one

theorem framed_outsideIn [FormationLaws α] :
    Framed (placeRadiating p (1 - progress p) (Movement.hold : Movement α)) :=
  framed_radiating p fun definite =>
    ((amid_progress p).sub_left Slot.isFinite_one).isFinite definite
      FormationLaws.isFinite_reach.1 FormationLaws.isFinite_reach.2

/-- What one side has the other has turned around, and what is nearer the middle has less. -/
theorem amid_mul_of_null {x u v w : α} (nothing : Null x) (finite_x : isFinite x = true)
    (finite_v : isFinite v = true) (hw : Amid x v w) (hu : Amid (-1) 1 u) :
    Amid (-1 * v) (1 * v) (u * w) := by
  intro definite
  have definite_w := (MonotoneLaws.le_self_of_mul u w definite).2
  have finite_w := hw.isFinite definite_w finite_x finite_v
  have across : Amid (-1 * v) (1 * v) (0 * v) :=
    (Amid.of_le StageLaws.neg_one_le_zero OrderLaws.zero_le_one).mul_right Slot.isFinite_neg_one
      Slot.isFinite_one fun _ => finite_v
  have side {c : α} (finite : isFinite c = true) (far : Amid (-1 * v) (1 * v) (c * v)) :
      Amid (-1 * v) (1 * v) (c * w) :=
    (across.of_null (null_zero.mul_right finite_v) (nothing.mul_left finite)).trans far
      (hw.mul_left finite_x finite_v fun _ => finite)
  have left := side Slot.isFinite_neg_one
    (Amid.left (OrderLaws.le_self_of_isFinite _ (isFinite_sides finite_v).2))
  have right := side Slot.isFinite_one
    (Amid.right (OrderLaws.le_self_of_isFinite _ (isFinite_sides finite_v).1))
  exact (left.trans right (hu.mul_right Slot.isFinite_neg_one Slot.isFinite_one
    fun _ => finite_w)) definite

/-- A chevron is narrowed to a part of itself. -/
theorem amid_narrowed [FormationLaws α] :
    Amid 0 1 (0.35 + 0.65 * clampUnit (p.number "tightness" 0.5) : α) := by
  have tightness := clampUnit_mem_unit (OrderLaws.le_self_of_isFinite _
    (p.isFinite_number "tightness" (StageLaws.isFinite_middle (α := α))))
  obtain ⟨⟨loose, loose'⟩, tight, tight'⟩ := FormationLaws.narrowed_mem (α := α)
  obtain ⟨-, least, rest⟩ := FormationLaws.isFinite_fractions (α := α)
  have varied := (Amid.of_le tightness.1 tightness.2).mul_left Slot.isFinite_zero
    Slot.isFinite_one fun _ => rest
  exact Amid.trans (Amid.of_le loose loose') (Amid.of_le tight tight') (varied.add_left least)

theorem framed_chevron [FormationLaws α] :
    Framed (placeChevron p (Movement.hold : Movement α)) where
  pan := Frames.of_edges fun m i h => by
    show Amid
      (0 + (Slot.ofIndex 2 0 : Slot α).side * ((Slot.ofIndex 2 0 : Slot α).distance * _ * _))
      (0 + (Slot.ofIndex 2 1 : Slot α).side * ((Slot.ofIndex 2 1 : Slot α).distance * _ * _))
      (0 + _ * (_ * _ * (0.35 + 0.65 * clampUnit (p.number "tightness" 0.5))))
    rw [Slot.side_left, Slot.side_right, Slot.distance_left, Slot.distance_right]
    refine Amid.add_left ?_ Slot.isFinite_zero
    intro definite
    have spread : isFinite (p.number "pan_spread_deg" 40 : α) = true :=
      isFinite_number p _ (by norm_num)
    -- how far the wedge is narrowed says what is finite, so it is looked into first
    have definite_wedge := (MonotoneLaws.le_self_of_mul _ _ definite).2
    have factor := (amid_narrowed p).mem_of_le OrderLaws.zero_le_one
      (MonotoneLaws.le_self_of_mul _ _ definite_wedge).2
    have finite_factor := isFinite_of_mem_unit factor
    have none := null_zero.mul_right spread
    have wedge := ((Slot.amid_distance h).mul_right Slot.isFinite_zero Slot.isFinite_one
      fun _ => spread).mul_right none.isFinite (isFinite_sides spread).2 fun _ => finite_factor
    have full := isFinite_mul_of_mem_unit factor (isFinite_sides spread).2
    rw [MonotoneLaws.mul_comm] at full
    exact amid_mul_of_null (none.mul_right finite_factor) (none.mul_right finite_factor).isFinite
      full wedge (Slot.amid_side _) definite
  tilt := Frames.of_middle fun m i h => by
    show Amid (0 + if (Slot.ofIndex 3 0 : Slot α).distance < 0.6 then _ else _)
      (0 + if (Slot.ofIndex 3 1 : Slot α).distance < 0.6 then _ else _)
      (0 + if (Slot.ofIndex m i : Slot α).distance < 0.6 then p.number "tilt_lift_deg" 10 else 0)
    rw [Slot.distance_outer, Slot.distance_middle, if_pos FormationLaws.inner.1,
      if_neg FormationLaws.inner.2]
    have lift := OrderLaws.le_self_of_isFinite _
      (isFinite_number (α := α) p "tilt_lift_deg" (n := 10) (by norm_num))
    refine Amid.add_left ?_ Slot.isFinite_zero
    split
    · exact Amid.right zero_le_zero
    · exact Amid.left lift

/-- A part of something between two numbers around nothing is between them. -/
theorem amid_mul_part {a b x y part : α} (finite_a : isFinite a = true)
    (finite_b : isFinite b = true) (nothing : Null x) (hx : Amid a b x) (hy : Amid a b y)
    (h : Amid 0 1 part) : Amid (a * 1) (b * 1) (y * part) := by
  intro definite
  have definite_y := (MonotoneLaws.le_self_of_mul y part definite).1
  have finite_y := hy.isFinite definite_y finite_a finite_b
  have one : (1 : α) ≤ 1 → isFinite (1 : α) = true := fun _ => Slot.isFinite_one
  have all := hy.mul_right finite_a finite_b one
  have none := (hx.mul_right finite_a finite_b one).of_null
    (nothing.mul_right Slot.isFinite_one) (null_zero.mul_left finite_y)
  exact none.trans all (h.mul_left Slot.isFinite_zero Slot.isFinite_one fun _ => finite_y) definite

end Framed

section Cross

variable (p : Params)

/-- What one side of a cross is given, where `part` of it is. -/
def crossed (sign part : α) : Movement α :=
  let direction : α := if (p.whole? "swap_phase").getD 0 % 2 = 1 then -1 else 1
  Movement.hold.offsetBy (direction * sign * p.number "pan_spread_deg" 30 * part)
    (direction * sign * p.number "tilt_spread_deg" 15 * part)

/-- Either side of a cross is given some part of what its edge is given. -/
theorem exists_crossed [MonotoneLaws α] {m i : Nat} (h : i < m) : ∃ sign part : α,
    (sign = 1 ∨ sign = -1) ∧ Amid 0 1 part ∧
      placeCross p (Movement.hold : Movement α) (.ofIndex m i) = crossed p sign part := by
  by_cases left : i < m / 2
  · refine ⟨1, ((m / 2 - i : Nat) : α) / ((m / 2 : Nat) : α), Or.inl rfl, ?_, ?_⟩
    · exact fun definite => Or.inl (MonotoneLaws.ratio_mem _ _ (Nat.sub_le _ _) definite)
    · unfold placeCross crossed
      simp only [Slot.ofIndex, left, if_true]
  · refine ⟨-1, ((i - m / 2 + 1 : Nat) : α) / ((m - m / 2 : Nat) : α), Or.inr rfl, ?_, ?_⟩
    · exact fun definite => Or.inl (MonotoneLaws.ratio_mem _ _ (by omega) definite)
    · unfold placeCross crossed
      simp only [Slot.ofIndex, left, if_false]

variable [FormationLaws α]

theorem placeCross_left :
    placeCross p (Movement.hold : Movement α) (.ofIndex 2 0) = crossed p 1 1 := by
  unfold placeCross crossed
  simp only [Slot.ofIndex, Nat.reduceDiv, Nat.lt_one_iff, if_true, Nat.sub_zero,
    FormationLaws.whole]

theorem placeCross_right :
    placeCross p (Movement.hold : Movement α) (.ofIndex 2 1) = crossed p (-1) 1 := by
  unfold placeCross crossed
  simp only [Slot.ofIndex, Nat.reduceDiv, Nat.lt_irrefl, if_false, Nat.reduceSub, Nat.sub_self,
    Nat.zero_add, FormationLaws.whole]

variable [OrderLaws α] [MonotoneLaws α] [StageLaws α]

theorem amid_crossed {direction sign part x : α} (hd : direction = -1 ∨ direction = 1)
    (hs : sign = 1 ∨ sign = -1) (h : Amid 0 1 part) (finite : isFinite x = true) :
    Amid (direction * 1 * x * 1) (direction * -1 * x * 1) (direction * sign * x * part) := by
  obtain ⟨left, right⟩ := isFinite_sides finite
  have across : Amid (-1 * x) (1 * x) (0 * x) :=
    (Amid.of_le StageLaws.neg_one_le_zero OrderLaws.zero_le_one).mul_right Slot.isFinite_neg_one
      Slot.isFinite_one fun _ => finite
  have nothing : Null (0 * x) := null_zero.mul_right finite
  have definite_left := OrderLaws.le_self_of_isFinite _ left
  have definite_right := OrderLaws.le_self_of_isFinite _ right
  obtain ⟨same, turned, turned', twice⟩ := FormationLaws.signs (α := α)
  rcases hd with rfl | rfl <;> rcases hs with rfl | rfl <;> simp only [same, turned, turned', twice]
  · exact amid_mul_part left right nothing across (Amid.left definite_right) h
  · exact amid_mul_part left right nothing across (Amid.right definite_left) h
  · exact amid_mul_part right left nothing across.symm (Amid.left definite_left) h
  · exact amid_mul_part right left nothing across.symm (Amid.right definite_right) h

theorem framed_cross : Framed (placeCross p (Movement.hold : Movement α)) where
  pan := Frames.of_edges fun m i h => by
    obtain ⟨sign, part, side, some, placed⟩ := exists_crossed (α := α) p h
    rw [placeCross_left, placeCross_right, placed]
    exact (amid_crossed (ite_eq_or_eq _ _ _) side some
      (isFinite_number p _ (by norm_num))).add_left Slot.isFinite_zero
  tilt := Frames.of_edges fun m i h => by
    obtain ⟨sign, part, side, some, placed⟩ := exists_crossed (α := α) p h
    rw [placeCross_left, placeCross_right, placed]
    exact (amid_crossed (ite_eq_or_eq _ _ _) side some
      (isFinite_number p _ (by norm_num))).add_left Slot.isFinite_zero

end Cross

section Table

theorem exists_presetAt (a b c d position : α) :
    ∃ l < 3, presetAt [a, b, c, d] position = readFrom [a, b, c, d] l position :=
  ⟨_, Nat.lt_succ_of_le (Nat.min_le_right _ _), rfl⟩

variable [OrderLaws α] [MonotoneLaws α]

/-- Limiting makes nothing definite. -/
theorem clampUnit_mem_of_definite {x : α} (h : clampUnit x ≤ clampUnit x) :
    0 ≤ clampUnit x ∧ clampUnit x ≤ 1 := by
  by_cases definite : x ≤ x
  · exact clampUnit_mem_unit definite
  · have same : clampUnit x = x := by
      unfold clampUnit clamp
      have below : ¬x < 0 := fun below =>
        definite (OrderLaws.le_self_of_le _ _ (OrderLaws.le_of_lt _ _ below)).1
      have above : ¬1 < x := fun above =>
        definite (OrderLaws.le_self_of_le _ _ (OrderLaws.le_of_lt _ _ above)).2
      rw [if_neg below, if_neg above]
    rw [same] at h
    exact absurd h definite

/-- What is read off a table is definite only where the position is. -/
theorem clampUnit_mem_of_presetAt {a b c d x : α}
    (h : presetAt [a, b, c, d] x ≤ presetAt [a, b, c, d] x) :
    0 ≤ clampUnit x ∧ clampUnit x ≤ 1 := by
  obtain ⟨l, -, read⟩ := exists_presetAt a b c d x
  rw [read] at h
  have along := (MonotoneLaws.le_self_of_mul _ _ (MonotoneLaws.le_self_of_add _ _ h).2).2
  rw [MonotoneLaws.sub_eq_add_neg] at along
  exact clampUnit_mem_of_definite
    (MonotoneLaws.le_self_of_mul _ _ (MonotoneLaws.le_self_of_add _ _ along).1).1

variable [StageLaws α] [FormationLaws α] [ZeroLaws α]

/-- A table of nothing gives nothing, wherever it is read. -/
theorem presetAt_flat {x : α} (h : 0 ≤ clampUnit x ∧ clampUnit x ≤ 1) :
    presetAt [0, 0, 0, 0] x = (0 : α) := by
  obtain ⟨l, small, read⟩ := exists_presetAt (0 : α) 0 0 0 x
  obtain ⟨entry, first, last⟩ := FormationLaws.isFinite_entry (α := α) l small
  have scaled := isFinite_mul_of_mem_unit h (FormationLaws.isFinite_entries (α := α))
  have along := ((Amid.of_le h.1 h.2).mul_right Slot.isFinite_zero Slot.isFinite_one
    fun _ => FormationLaws.isFinite_entries).sub_right entry
  have definite := MonotoneLaws.add_le_add_right _ _ _ (OrderLaws.le_self_of_isFinite _ scaled)
    (MonotoneLaws.isFinite_neg _ entry)
  rw [← MonotoneLaws.sub_eq_add_neg] at definite
  have finite := along.isFinite definite first last
  have nothing : readFrom [0, 0, 0, 0] l x =
      0 + (0 - 0) * (clampUnit x * ((3 : Nat) : α) - (l : α)) := by
    obtain rfl | rfl | rfl : l = 0 ∨ l = 1 ∨ l = 2 := by omega
    all_goals rfl
  rw [read, nothing, FormationLaws.flat]
  exact ZeroLaws.zero_add_zero_mul _ finite

theorem framed_flat : Framed (placePreset [0, 0, 0, 0] (Movement.hold : Movement α)) where
  pan := Frames.of_edges fun m i h => by
    show Amid (0 + presetAt [0, 0, 0, 0] (Slot.ofIndex 2 0 : Slot α).position)
      (0 + presetAt [0, 0, 0, 0] (Slot.ofIndex 2 1 : Slot α).position)
      (0 + presetAt [0, 0, 0, 0] (Slot.ofIndex m i : Slot α).position)
    rw [Slot.ofIndex_left, Slot.ofIndex_right]
    obtain ⟨zero, one⟩ := OrderLaws.le_self_of_le (0 : α) 1 OrderLaws.zero_le_one
    refine Amid.add_left ?_ Slot.isFinite_zero
    intro definite
    rw [presetAt_flat (clampUnit_mem_unit zero), presetAt_flat (clampUnit_mem_unit one),
      presetAt_flat (clampUnit_mem_of_presetAt definite)]
    exact Or.inl ⟨zero, zero⟩
  tilt := frames_const _

end Table

end Formation

end MovingLight
