import MovingLight.Proofs.Scalar.Exact
import MovingLight.Scalar.Single

/-!
# Zero — what both readings say of it

Few laws hold of single precision, and those that a rule of the domain relies on
are about zero: that no step times a finite spacing is no phase, and that no
phase is too small to matter. `Scalar.ZeroLaws` lists them, and both readings of a
scalar have them.

The product is the delicate one. In single precision zero times a negative number
is a negative zero, and only adding zero makes it zero again; zero times an
infinite number is indefinite, and nothing makes it zero.
-/

namespace MovingLight

/-- **What a phase of nothing comes to.** -/
class Scalar.ZeroLaws (α : Type) [Scalar α] : Prop where
  zero_add_zero_mul : ∀ x : α, Scalar.isFinite x = true → 0 + ((0 : Nat) : α) * x = 0
  /-- The whole circle is finite, for one head to have it to itself. -/
  isFinite_turn : Scalar.isFinite (360 / ((1 : Nat) : α)) = true
  emod_turn : Scalar.emod (0 : α) 360 = 0
  abs_zero_lt : Scalar.abs (0 : α) < 0.0001

/-! ## The exact reading -/

instance [ExactReading] : Scalar.ZeroLaws ℚ where
  zero_add_zero_mul x _ := by
    show (0 : ℚ) + ((0 : ℕ) : ℚ) * x = 0
    simp
  isFinite_turn := rfl
  emod_turn := by
    show (0 : ℚ) - ⌊(0 : ℚ) / |360|⌋ * |360| = 0
    simp
  abs_zero_lt := by
    show |(0 : ℚ)| < 0.0001
    norm_num

/-! ## Single precision -/

namespace Single

open Float.Model (UnpackedFloat)

/-- Zero times a finite number is a zero, of the sign of the number. -/
theorem exists_zero_mul {x : Float32} (h : x.isFinite = true) :
    ∃ sign, Float32.ofBits 0 * x = ⟨Float32.Model.pack (.zero sign)⟩ := by
  have zero_unpacks : (Float32.ofBits 0).toModel.unpack = .zero .positive := rfl
  have product : Float32.ofBits 0 * x = ⟨Float32.Model.pack (UnpackedFloat.mul .binary32
      (Float32.ofBits 0).toModel.unpack x.toModel.unpack)⟩ := rfl
  have finite : x.toModel.unpack.isFinite = true := h
  rw [product, zero_unpacks]
  cases unpacked : x.toModel.unpack with
  | infinity sign =>
    rw [unpacked] at finite
    cases finite
  | notANumber =>
    rw [unpacked] at finite
    cases finite
  | zero sign => exact ⟨_, rfl⟩
  | finite sign => exact ⟨_, rfl⟩

theorem zero_add_zero_mul {x : Float32} (h : x.isFinite = true) :
    0 + ((0 : Nat) : Float32) * x = 0 := by
  obtain ⟨sign, product⟩ := exists_zero_mul h
  have zero_eq : ((0 : Nat) : Float32) = Float32.ofBits 0 := by decide
  rw [zero_eq, product]
  -- a negative zero is the case that adding zero is for
  cases sign <;> decide

end Single

instance : Scalar.ZeroLaws Float32 where
  zero_add_zero_mul _ h := Single.zero_add_zero_mul h
  isFinite_turn := by decide
  emod_turn := by decide
  abs_zero_lt := by decide

end MovingLight
