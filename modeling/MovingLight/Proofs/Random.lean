import MovingLight.Proofs.Scalar.Amid
import MovingLight.Random

/-!
# Draws — no word leads out of its range

A word is worth a fraction from zero up to the largest one, which is the smallest step below one.
The scale of a range carries that largest fraction to the upper end, so what a word is worth on the
scale lies between the ends. Read exactly this is all, and holds of any range (`draw_mem`): the
scale is never lowered.

In single precision the scale is rounded, and what keeps the largest fraction inside is a check made
of this one fraction. Others follow because rounding keeps their order. For the range from minus
one to one the check is a computation (`Single.draw_mem`).
-/

namespace MovingLight

/-- The leading 23 bits of a word. -/
theorem leadingBits_le (word : UInt32) : (word >>> 9).toNat ≤ 8388607 := by
  have small := word.toNat_lt
  rw [UInt32.toNat_shiftRight, Nat.shiftRight_eq_div_pow]
  show word.toNat / 2 ^ 9 ≤ 8388607
  omega

/-! ## The exact reading -/

section Exact

variable [ExactReading]

theorem largestFraction_eq : (largestFraction : ℚ) = 8388607 / 8388608 := by
  show (1 : ℚ) - 1 / 8388608 = _
  norm_num

theorem fractionOf_mem (word : UInt32) : fractionOf word ∈ Set.Icc (0 : ℚ) largestFraction := by
  have bits : (((word >>> 9).toNat : ℕ) : ℚ) ≤ 8388607 := by
    exact_mod_cast leadingBits_le word
  rw [largestFraction_eq]
  unfold fractionOf
  constructor
  · positivity
  · gcongr

/-- Read exactly, the largest fraction lands on the upper end, and no scale is lowered. -/
theorem drawScale_eq (low high : ℚ) : drawScale low high = (high - low) / largestFraction := by
  have nonzero : (largestFraction : ℚ) ≠ 0 := by norm_num [largestFraction_eq]
  have lands : ¬high < (high - low) / largestFraction * largestFraction + low := by
    rw [div_mul_cancel₀ _ nonzero, sub_add_cancel]
    exact lt_irrefl high
  exact if_neg lands

/-- **A word stands for a number of the range it is drawn from.** -/
theorem draw_mem {low high : ℚ} (h : low ≤ high) (word : UInt32) :
    draw low high word ∈ Set.Icc low high := by
  obtain ⟨nonneg, largest⟩ := fractionOf_mem word
  have positive : (0 : ℚ) < largestFraction := by norm_num [largestFraction_eq]
  have scale : 0 ≤ (high - low) / largestFraction := div_nonneg (sub_nonneg.mpr h) positive.le
  have lower := mul_nonneg nonneg scale
  have upper := mul_le_mul_of_nonneg_right largest scale
  rw [mul_div_cancel₀ _ positive.ne'] at upper
  unfold draw
  rw [drawScale_eq]
  constructor <;> linarith

end Exact

/-! ## Single precision -/

namespace Single

theorem worth_largestFraction : worth largestFraction = 8388607 / 8388608 := by
  have unpacked : (largestFraction : Float32).toModel.unpack =
      .finite .positive 16777214 (-24) (by decide) := rfl
  rw [worth, unpacked]
  norm_num [worthOf, signed]

/-- The fraction of a word is the number of its leading bits in steps of the least size. -/
theorem worth_steps : worth 8388608 = 8388608 := by
  have unpacked : (8388608 : Float32).toModel.unpack =
      .finite .positive 8388608 0 (by decide) := rfl
  rw [worth, unpacked]
  norm_num [worthOf, signed]

theorem worth_leadingBits : worth ((8388607 : ℕ) : Float32) = 8388607 := by
  have unpacked : ((8388607 : ℕ) : Float32).toModel.unpack =
      .finite .positive 16777214 (-1) (by decide) := rfl
  rw [worth, unpacked]
  norm_num [worthOf, signed]

theorem fractionOf_mem (word : UInt32) :
    (0 : Float32) ≤ fractionOf word ∧ (fractionOf word : Float32) ≤ largestFraction := by
  have lower := zero_le_natCast (word >>> 9).toNat
  have upper := natCast_le (leadingBits_le word)
  have top : ((8388607 : ℕ) : Float32).isFinite = true := by decide +kernel
  have finite := isFinite_of_mem (by decide) top lower upper
  have definite := le_self_of_isFinite finite
  have steps : (8388608 : Float32).isFinite = true := by decide +kernel
  have near := nearest_div finite steps (by norm_num [worth_steps])
  rw [le_iff_worth (by decide) definite, worth_zero] at lower
  rw [le_iff_worth definite (le_self_of_isFinite top), worth_leadingBits] at upper
  rw [worth_steps] at near
  constructor
  · refine near.ge_of_ge (by decide) ?_
    rw [worth_zero]
    positivity
  · refine near.le_of_le (by decide +kernel) ?_
    rw [worth_largestFraction]
    gcongr

/-- **A word stands for a number between minus one and one** where it is drawn from there. -/
theorem draw_mem (word : UInt32) :
    (-1 : Float32) ≤ draw (-1) 1 word ∧ draw (-1) 1 word ≤ (1 : Float32) := by
  have scale : (drawScale (-1) 1 : Float32).isFinite = true := by decide +kernel
  have nonneg : (0 : Float32) ≤ drawScale (-1) 1 := by decide +kernel
  have bottom : (-1 : Float32) ≤ 0 * drawScale (-1) 1 + -1 := by decide +kernel
  have top : largestFraction * drawScale (-1) 1 + -1 ≤ (1 : Float32) := by decide +kernel
  have largest : (largestFraction : Float32).isFinite = true := by decide +kernel
  have zero : (0 : Float32).isFinite = true := by decide
  have one : (-1 : Float32).isFinite = true := by decide
  -- both ends are numbers to compute, and every other fraction is between theirs
  obtain ⟨above, below⟩ := fractionOf_mem word
  have fraction := isFinite_of_mem zero largest above below
  have up := add_le_add_right (mul_le_mul_right above zero fraction scale nonneg) one
  have down := add_le_add_right (mul_le_mul_right below fraction largest scale nonneg) one
  exact ⟨Scalar.MonotoneLaws.le_trans _ _ _ bottom up, Scalar.MonotoneLaws.le_trans _ _ _ down top⟩

end Single

/-! ## Both readings -/

/-- **What is drawn between minus one and one**, and what comes of a size that is taken that many
times and added to nothing. -/
class Scalar.DrawLaws (α : Type) [Scalar α] : Prop where
  draw_mem : ∀ word : UInt32, (-1 : α) ≤ draw (-1) 1 word ∧ draw (-1) 1 word ≤ (1 : α)
  isFinite_abs : ∀ x : α, isFinite x = true → isFinite (abs x) = true
  zero_add : ∀ x : α, isFinite x = true → 0 + x ≤ x ∧ x ≤ 0 + x
  one_mul : ∀ x : α, isFinite x = true → 1 * x ≤ x ∧ x ≤ 1 * x
  neg_one_mul : ∀ x : α, isFinite x = true → -1 * x ≤ -x ∧ -x ≤ -1 * x

instance [ExactReading] : Scalar.DrawLaws ℚ where
  draw_mem word := draw_mem (by norm_num) word
  isFinite_abs _ _ := rfl
  zero_add x _ := ⟨(zero_add x).le, (zero_add x).ge⟩
  one_mul x _ := ⟨(one_mul x).le, (one_mul x).ge⟩
  neg_one_mul x _ := ⟨(neg_one_mul x).le, (neg_one_mul x).ge⟩

instance : Scalar.DrawLaws Float32 where
  draw_mem := Single.draw_mem
  isFinite_abs x finite := by
    have definite := Single.le_self_of_isFinite finite
    show x.abs.isFinite = true
    rwa [Single.isFinite_iff_worth (Single.le_self_abs_iff.mpr definite), Single.worth_abs, abs_abs,
      ← Single.isFinite_iff_worth definite]
  zero_add x finite := by
    have near := Single.nearest_add (show (0 : Float32).isFinite = true by decide) finite
    rw [Single.worth_zero, zero_add] at near
    exact near.same (Single.le_self_of_isFinite finite)
  one_mul x finite := by
    have near := Single.nearest_mul (show (1 : Float32).isFinite = true by decide) finite
    rw [Single.worth_one, one_mul] at near
    exact near.same (Single.le_self_of_isFinite finite)
  neg_one_mul x finite := by
    have near := Single.nearest_mul (show (-1 : Float32).isFinite = true by decide) finite
    rw [Single.worth_neg, Single.worth_one, neg_one_mul, ← Single.worth_neg] at near
    exact near.same (Single.le_self_of_isFinite (Single.isFinite_neg finite))

end MovingLight
