import MovingLight.Random.ChaCha
import MovingLight.Scalar

/-!
# Draws — random scalars from a range

A draw takes the leading 23 bits of a random word as a fraction below one and
scales it onto a range with both ends included. The scale is chosen so that
the largest fraction lands on the upper end and never beyond it: where
rounding would carry it beyond, the scale is lowered until it does not.
-/

namespace MovingLight

variable {α : Type} [Scalar α]

/-- The leading 23 bits of a word, as a fraction below one. -/
def fractionOf (word : UInt32) : α := ((word >>> 9).toNat : α) / 8388608

/-- The largest fraction a word can give. -/
def largestFraction : α := 1 - Scalar.epsilon

/-- A scale lowered by neighbouring numbers until the largest fraction stays
within the upper end, at most `steps` times. -/
def loweredScale (low high : α) : Nat → α → α
  | 0, scale => scale
  | steps + 1, scale =>
    if high < scale * largestFraction + low then loweredScale low high steps (Scalar.below scale)
    else scale

/-- The scale of a range. Rounding carries the product beyond the upper end
by a few neighbours at most, so the bound on the steps is never met. -/
def drawScale (low high : α) : α := loweredScale low high 256 ((high - low) / largestFraction)

/-- The number in `[low, high]` that a random word stands for. -/
def draw (low high : α) (word : UInt32) : α := fractionOf word * drawScale low high + low

end MovingLight
