import Mathlib.Data.List.Chain
import Mathlib.Tactic.LinearCombination
import MovingLight.Curve.Monotone
import MovingLight.Proofs.Curve.Range

/-!
# Monotone interpolation — no cubic leaves the range of its ends

A cubic between two knots stays between their values when the slope at each end
has the direction of the secant and is at most three times as steep. Such a slope
is `Gentle`, and two knots that are gentle on both sides, the first before the
second, are a pair of which the first `Leads` the second. Between such knots the
cubic goes a fraction of the way, `weight`, that never leaves the unit interval.

The slopes the program chooses make every pair of neighbours such a pair
(`isChain_knots`): an inner slope is a weighted harmonic mean, whose weights differ
by a factor of two at most, and a slope at an end of the curve is cut back or set to
zero where the three-point estimate is not gentle. Each slope must be gentle against
both of its secants, so the induction along the points carries the slope that the
point before has been given.
-/

namespace MovingLight

/-- **A slope is gentle against a secant**: it has its direction, and is at most three times as
steep. -/
def Gentle (secant slope : ℚ) : Prop := ∃ k ∈ Set.Icc (0 : ℚ) 3, slope = k * secant

namespace Gentle

theorem zero (secant : ℚ) : Gentle secant 0 := ⟨0, by norm_num, (zero_mul _).symm⟩

theorem self (secant : ℚ) : Gentle secant secant := ⟨1, by norm_num, (one_mul _).symm⟩

theorem three (secant : ℚ) : Gentle secant (3 * secant) := ⟨3, by norm_num, rfl⟩

/-- Direction and steepness told by products, which is how the program's tests tell them. -/
theorem of_products {secant slope : ℚ} (hne : secant ≠ 0) (direction : 0 ≤ slope * secant)
    (steepness : slope * secant ≤ 3 * (secant * secant)) : Gentle secant slope := by
  have pos : 0 < secant * secant := mul_self_pos.mpr hne
  refine ⟨slope * secant / (secant * secant), ⟨div_nonneg direction pos.le, ?_⟩, ?_⟩
  · rw [div_le_iff₀ pos]
    exact steepness
  · field_simp

/-- A weighted harmonic mean of two secants of one direction is gentle against the first, where
the weight of the second is at most twice that of the first. -/
theorem harmonicMean {x y v w : ℚ} (agree : 0 < x * y) (hv : 0 < v) (hw : 0 < w)
    (h : w ≤ 2 * v) : Gentle x ((v + w) / (v / x + w / y)) := by
  have hx : x ≠ 0 := left_ne_zero_of_mul (ne_of_gt agree)
  have hy : y ≠ 0 := right_ne_zero_of_mul (ne_of_gt agree)
  have square : 0 < x * x := mul_self_pos.mpr hx
  have below : 0 < v * (x * y) + w * (x * x) := by positivity
  refine ⟨(v + w) * (x * y) / (v * (x * y) + w * (x * x)), ⟨by positivity, ?_⟩, ?_⟩
  · rw [div_le_iff₀ below]
    nlinarith [mul_pos hw square, mul_le_mul_of_nonneg_right h agree.le]
  · have factored : v * (x * y) + w * (x * x) = x * (v * y + w * x) := by ring
    -- the two terms have one sign, but which it is depends on the secants
    have hne : v * y + w * x ≠ 0 := by
      intro hzero
      rw [factored, hzero, mul_zero] at below
      exact lt_irrefl _ below
    rw [factored]
    field_simp

end Gentle

private theorem mul_nonneg_of_sign {x y : ℚ} (h : x < 0 ↔ y < 0) : 0 ≤ x * y := by
  by_cases hx : x < 0
  · exact mul_nonneg_of_nonpos_of_nonpos hx.le (h.mp hx).le
  · exact mul_nonneg (not_lt.mp hx) (not_lt.mp fun hy => hx (h.mpr hy))

/-- Where the neighbouring secant `y` has the direction of the secant `x`, the three-point estimate
of the slope is not steep: it is at most twice the secant. -/
private theorem threePoint_le {v w x y d : ℚ} (hv : 0 < v) (hw : 0 < w) (agree : 0 ≤ x * y)
    (estimate : d * (v + w) = (2 * v + w) * x - v * y) : d * x ≤ 3 * (x * x) := by
  have square : 0 ≤ x * x := mul_self_nonneg x
  have bound : d * x * (v + w) ≤ 3 * (x * x) * (v + w) := by
    calc d * x * (v + w) = (2 * v + w) * (x * x) - v * (x * y) := by
          linear_combination x * estimate
      _ ≤ (2 * v + w) * (x * x) := sub_le_self _ (mul_nonneg hv.le agree)
      _ ≤ 3 * (x * x) * (v + w) := by
          linarith [mul_nonneg hv.le square, mul_nonneg hw.le square]
  exact le_of_mul_le_mul_right bound (add_pos hv hw)

/-- The secant between two knots. -/
def Knot.secant (a b : Knot ℚ) : ℚ := (b.value - a.value) / (b.t - a.t)

/-- **One knot leads to the next**: it comes before, and both slopes are gentle against the secant
between them. -/
structure Knot.Leads (a b : Knot ℚ) : Prop where
  lt : a.t < b.t
  leaving : Gentle (a.secant b) a.slope
  arriving : Gentle (a.secant b) b.slope

namespace Interpolant

/-! ## Points and knots -/

/-- The knots at the points of a curve, given their slopes. -/
def knotsWith (points : List (CurvePoint ℚ)) (slopes : List ℚ) : List (Knot ℚ) :=
  points.zipWith (fun p s => ⟨p.t, p.value, s⟩) slopes

/-- The span from one point to another. -/
def spanOf (p q : CurvePoint ℚ) : Span ℚ := ⟨q.t - p.t, (q.value - p.value) / (q.t - p.t)⟩

/-- The first two spans between points that come one after another have a width. -/
private theorem widths_pos {p q r : CurvePoint ℚ} {rest : List (CurvePoint ℚ)}
    (before : (p :: q :: r :: rest).IsChain fun p q => p.t < q.t) :
    0 < (spanOf p q).width ∧ 0 < (spanOf q r).width := by
  obtain ⟨hpq, before⟩ := List.isChain_cons_cons.mp before
  exact ⟨sub_pos.mpr hpq, sub_pos.mpr (List.isChain_cons_cons.mp before).1⟩

/-! ## One cubic -/

/-- How much of the way between two values a cubic has gone at a fraction `u` of the time, where
its slopes at the ends are `k` and `l` times the secant. -/
def weight (k l u : ℚ) : ℚ :=
  3 * u ^ 2 - 2 * u ^ 3 + k * (u * (1 - u) ^ 2) - l * (u ^ 2 * (1 - u))

/-- The way is never more than gone and never less than begun. It is least for a level start and a
steep end, and greatest for a steep start and a level end. -/
theorem weight_mem {k l u : ℚ} (hk : k ∈ Set.Icc (0 : ℚ) 3) (hl : l ∈ Set.Icc (0 : ℚ) 3)
    (hu : u ∈ Set.Icc (0 : ℚ) 1) : weight k l u ∈ Set.Icc (0 : ℚ) 1 := by
  obtain ⟨hk0, hk3⟩ := hk
  obtain ⟨hl0, hl3⟩ := hl
  obtain ⟨hu0, hu1⟩ := hu
  have rest : 0 ≤ 1 - u := by linarith
  have lead : 0 ≤ u * (1 - u) ^ 2 := by positivity
  have lag : 0 ≤ u ^ 2 * (1 - u) := by positivity
  constructor
  · calc (0 : ℚ) ≤ u ^ 3 := by positivity
      _ = weight 0 3 u := by unfold weight; ring
      _ ≤ weight k l u := by
        unfold weight
        linarith [mul_le_mul_of_nonneg_right hk0 lead, mul_le_mul_of_nonneg_right hl3 lag]
  · calc weight k l u ≤ weight 3 0 u := by
          unfold weight
          linarith [mul_le_mul_of_nonneg_right hk3 lead, mul_le_mul_of_nonneg_right hl0 lag]
      _ = 1 - (1 - u) ^ 3 := by unfold weight; ring
      _ ≤ 1 := by
        have pos : 0 ≤ (1 - u) ^ 3 := by positivity
        linarith

variable [ExactReading]

/-- A cubic between knots with slopes in proportion to the secant goes a fraction of the way. -/
theorem cubic_eq_between {a b : Knot ℚ} {k l : ℚ} (hlt : a.t < b.t)
    (leaving : a.slope = k * a.secant b) (arriving : b.slope = l * a.secant b) (x : ℚ) :
    cubic a b x = Scalar.between a.value b.value (weight k l ((x - a.t) / (b.t - a.t))) := by
  have width : b.t - a.t ≠ 0 := by
    have pos := sub_pos.mpr hlt
    exact ne_of_gt pos
  have rise : (b.t - a.t) * a.secant b = b.value - a.value := mul_div_cancel₀ _ width
  unfold cubic Scalar.between weight
  dsimp only
  rw [leaving, arriving]
  generalize (x - a.t) / (b.t - a.t) = u
  linear_combination (k * (u * (1 - u) ^ 2) - l * (u ^ 2 * (1 - u))) * rise

/-- **Between two knots of which one leads to the other, the cubic lies between their values.** -/
theorem cubic_mem_uIcc {a b : Knot ℚ} (h : a.Leads b) {x : ℚ} (hx : x ∈ Set.Icc a.t b.t) :
    cubic a b x ∈ Set.uIcc a.value b.value := by
  obtain ⟨k, hk, leaving⟩ := h.leaving
  obtain ⟨l, hl, arriving⟩ := h.arriving
  have width : 0 < b.t - a.t := sub_pos.mpr h.lt
  have fraction : (x - a.t) / (b.t - a.t) ∈ Set.Icc (0 : ℚ) 1 := by
    refine ⟨div_nonneg (sub_nonneg.mpr hx.1) width.le, ?_⟩
    rw [div_le_one width]
    linarith [hx.2]
  rw [cubic_eq_between h.lt leaving arriving]
  exact Scalar.between_mem_uIcc _ _ (weight_mem hk hl fraction)

/-! ## The choice of slopes -/

/-- An inner slope is gentle against the secants on both sides of it. -/
theorem innerSlope_gentle {a b : Span ℚ} (ha : 0 < a.width) (hb : 0 < b.width) :
    Gentle a.secant (innerSlope a b) ∧ Gentle b.secant (innerSlope a b) := by
  unfold innerSlope
  split
  · exact ⟨Gentle.zero _, Gentle.zero _⟩
  · rename_i h
    have agree : 0 < a.secant * b.secant := not_le.mp h
    have first : 0 < 2 * b.width + a.width := by positivity
    have second : 0 < b.width + 2 * a.width := by positivity
    dsimp only
    constructor
    · exact Gentle.harmonicMean agree first second (by linarith)
    · rw [mul_comm] at agree
      rw [add_comm (2 * b.width + a.width), add_comm ((2 * b.width + a.width) / a.secant)]
      exact Gentle.harmonicMean agree second first (by linarith)

/-- A slope at an end of the curve is gentle against the secant there: where it is not set to zero
it has the direction of the secant, and where it is not cut back it is not steep. -/
theorem endSlope_gentle {a b : Span ℚ} (ha : 0 < a.width) (hb : 0 < b.width) :
    Gentle a.secant (endSlope a b) := by
  unfold endSlope
  dsimp only
  generalize estimate : ((2 * a.width + b.width) * a.secant - a.width * b.secant) /
    (a.width + b.width) = d
  split
  · exact Gentle.zero _
  · rename_i kept
    split
    · exact Gentle.three _
    · rename_i steep
      simp only [Bool.or_eq_true, Bool.not_eq_true', ← Bool.not_eq_true, Scalar.equal_iff,
        Scalar.signum_eq_signum, not_or, not_not] at kept
      simp only [Bool.and_eq_true, Bool.not_eq_true', ← Bool.not_eq_true, Scalar.equal_iff,
        Scalar.signum_eq_signum, decide_eq_true_eq, not_and] at steep
      -- what is left of the tests: the estimate has the sign of its secant, which is not zero
      obtain ⟨agree, hne⟩ := kept
      have direction : 0 ≤ d * a.secant := mul_nonneg_of_sign agree
      refine Gentle.of_products hne direction ?_
      by_cases same : a.secant < 0 ↔ b.secant < 0
      · refine threePoint_le ha hb (mul_nonneg_of_sign same) ?_
        rw [← estimate, div_mul_cancel₀ _ (ne_of_gt (add_pos ha hb))]
      · -- the secants turn, so nothing bounds the estimate but the test that would cut it back
        have cut : |d| ≤ 3 * |a.secant| := not_lt.mp (steep same)
        calc d * a.secant = |d| * |a.secant| := by rw [← abs_mul, abs_of_nonneg direction]
          _ ≤ 3 * |a.secant| * |a.secant| := mul_le_mul_of_nonneg_right cut (abs_nonneg _)
          _ = 3 * (a.secant * a.secant) := by rw [mul_assoc, abs_mul_abs_self]

/-! ## Knots -/

/-- Past a point and its slope, each knot leads to the next. The induction is on the points that
follow, for any point they follow and any slope that is gentle there. -/
theorem isChain_knotsWith {p q r : CurvePoint ℚ} {rest : List (CurvePoint ℚ)} {m : ℚ}
    (before : (p :: q :: r :: rest).IsChain fun p q => p.t < q.t)
    (gentle : Gentle (spanOf p q).secant m) :
    (knotsWith (p :: q :: r :: rest)
      (m :: slopesAfter (spanOf p q) (spans (q :: r :: rest)))).IsChain Knot.Leads := by
  induction rest generalizing p q r m with
  | nil =>
    obtain ⟨hpq, hqr⟩ := widths_pos before
    have inner := innerSlope_gentle (a := spanOf p q) (b := spanOf q r) hpq hqr
    have outer := endSlope_gentle (a := spanOf q r) (b := spanOf p q) hqr hpq
    exact .cons_cons ⟨sub_pos.mp hpq, gentle, inner.1⟩
      (.cons_cons ⟨sub_pos.mp hqr, inner.2, outer⟩ (.singleton _))
  | cons s rest ih =>
    obtain ⟨hpq, hqr⟩ := widths_pos before
    have inner := innerSlope_gentle (a := spanOf p q) (b := spanOf q r) hpq hqr
    exact .cons_cons ⟨sub_pos.mp hpq, gentle, inner.1⟩
      (ih (List.isChain_cons_cons.mp before).2 inner.2)

/-- The knots at the points of a curve. -/
def knots (points : List (CurvePoint ℚ)) : List (Knot ℚ) :=
  knotsWith points (slopes (spans points))

/-- **Each knot leads to the next**, whatever the points, as long as they come one after another. -/
theorem isChain_knots {points : List (CurvePoint ℚ)}
    (before : points.IsChain fun p q => p.t < q.t) : (knots points).IsChain Knot.Leads := by
  match points, before with
  | [], _ => exact .nil
  | [p], _ => exact .singleton _
  | [p, q], before =>
    have hpq := (List.isChain_cons_cons.mp before).1
    exact .cons_cons ⟨hpq, Gentle.self _, Gentle.self _⟩ (.singleton _)
  | p :: q :: r :: rest, before =>
    obtain ⟨hpq, hqr⟩ := widths_pos before
    exact isChain_knotsWith before
      (endSlope_gentle (a := spanOf p q) (b := spanOf q r) hpq hqr)

end Interpolant

end MovingLight
