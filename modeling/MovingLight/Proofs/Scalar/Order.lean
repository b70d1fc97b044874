import MovingLight.Pattern.Dimmer
import MovingLight.Proofs.Scalar.Exact
import MovingLight.Proofs.Scalar.Single

/-!
# Order — what both readings say of comparing

An indefinite number is neither below nor above any other, itself included, so `x ≤ x`
says of a number that it is definite. `Scalar.OrderLaws` lists what both readings say of
definite numbers: that they can be compared, that bytes are among them and ordered as
whole numbers are, and that the lower level of a dimmer is one, however the limits of a
head run.

In single precision only the last takes an argument. The level is a byte and a share of
the difference of two bytes, which is finite, so neither the product nor the sum is
indefinite.
-/

namespace MovingLight

/-- **What comparing comes to**, where nothing is indefinite. -/
class Scalar.OrderLaws (α : Type) [Scalar α] : Prop where
  le_of_lt : ∀ x y : α, x < y → x ≤ y
  /-- What is comparable is definite. -/
  le_self_of_le : ∀ x y : α, x ≤ y → x ≤ x ∧ y ≤ y
  le_of_not_le : ∀ x y : α, x ≤ x → y ≤ y → ¬x ≤ y → y ≤ x
  le_self_of_isFinite : ∀ x : α, Scalar.isFinite x = true → x ≤ x
  byte_le_byte : ∀ a b : UInt8, a ≤ b → (a.toNat : α) ≤ (b.toNat : α)
  zero_le_one : (0 : α) ≤ 1
  zero_le_full : (0 : α) ≤ 255
  neg_one_le_one : (-1 : α) ≤ 1
  /-- The lower level of a dimmer is definite. -/
  low_le_self : ∀ (l : Limits) (i : Intensity),
    (l.atPercent i.dimmerTier.minPercent : α) ≤ l.atPercent i.dimmerTier.minPercent

/-! ## The exact reading -/

instance [ExactReading] : Scalar.OrderLaws ℚ where
  le_of_lt _ _ h := le_of_lt h
  le_self_of_le _ _ _ := ⟨le_rfl, le_rfl⟩
  le_of_not_le _ _ _ _ h := (not_le.mp h).le
  le_self_of_isFinite _ _ := le_rfl
  byte_le_byte _ _ h := Nat.cast_le.mpr h
  zero_le_one := show (0 : ℚ) ≤ 1 by norm_num
  zero_le_full := show (0 : ℚ) ≤ 255 by norm_num
  neg_one_le_one := show (-1 : ℚ) ≤ 1 by norm_num
  low_le_self _ _ := le_rfl

/-! ## Single precision -/

namespace Single

/-- The share of a window that the lower level of a tier takes is finite. -/
theorem isFinite_low (i : Intensity) :
    (Scalar.clampUnit ((i.dimmerTier.minPercent : Float32) / 100)).isFinite = true := by
  cases i <;> decide

/-- The span of limits is finite, however they run. -/
theorem isFinite_span (l : Limits) : (l.span : Float32).isFinite = true := by
  have difference : ((l.max.toNat : Float32) - (l.min.toNat : Float32)).isFinite = true :=
    isFinite_sub_natCast l.max.toNat_lt l.min.toNat_lt
  unfold Limits.span Scalar.greater
  split
  · exact difference
  · split
    · decide
    · exact difference

theorem low_le_self (l : Limits) (i : Intensity) :
    (l.atPercent i.dimmerTier.minPercent : Float32) ≤ l.atPercent i.dimmerTier.minPercent :=
  le_self_add (isFinite_natCast l.min.toNat_lt) (le_self_mul (isFinite_low i) (isFinite_span l))

end Single

instance : Scalar.OrderLaws Float32 where
  le_of_lt _ _ h := Single.le_of_lt h
  le_self_of_le _ _ h := Single.le_self_of_le h
  le_of_not_le _ _ hx hy h := Single.le_of_not_le hx hy h
  le_self_of_isFinite _ h := Single.le_self_of_isFinite h
  byte_le_byte _ b h := Single.natCast_le_natCast h b.toNat_lt
  zero_le_one := by decide
  zero_le_full := by decide
  neg_one_le_one := by decide
  low_le_self := Single.low_le_self

end MovingLight
