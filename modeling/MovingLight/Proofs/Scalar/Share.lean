import MovingLight.Proofs.Scalar.Exact
import MovingLight.Proofs.Scalar.Single

/-!
# Shares — a fraction of a duration fits the duration

A step is timed by fractions of its section, and it stays inside because a fraction
between zero and one of a number of milliseconds is no more than that number.
`Scalar.ShareLaws` is that law, and both readings of a scalar have it.

In single precision it is a statement about bits. A share is computed in whole
numbers from the parts of the fraction, while the fraction is brought between zero and
one by comparing, which looks at the number as the machine unpacks it;
`Single.parts?_eq` says that the two see the same parts. A number that is not above one
is then a mantissa over at least as large a power of two (`Single.le_two_pow`), and
below `2²⁹` units nothing is lost on the way (`Single.leadingBits_of_lt`).
-/

namespace MovingLight

/-- **What a fraction of a duration comes to.** -/
class Scalar.ShareLaws (α : Type) [Scalar α] : Prop where
  share_le : ∀ (x : α) (n : Nat), n < 2 ^ 29 → Scalar.share (Scalar.clampUnit x) n ≤ n

/-! ## The exact reading -/

instance [ExactReading] : Scalar.ShareLaws ℚ where
  share_le x n _ := by
    obtain ⟨-, le_one⟩ := Scalar.clampUnit_mem x
    have le : Scalar.clampUnit x * n ≤ n :=
      mul_le_of_le_one_left (Nat.cast_nonneg n) le_one
    have floor : ⌊Scalar.clampUnit x * n + 1 / 2⌋ ≤ (n : ℤ) := by
      refine Int.lt_add_one_iff.mp (Int.floor_lt.mpr ?_)
      push_cast
      linarith
    show min ⌊Scalar.clampUnit x * n + 1 / 2⌋.toNat _ ≤ n
    exact (min_le_left _ _).trans (Int.toNat_le.mpr floor)

/-! ## Single precision -/

namespace Single

/-- **A finite number that is not above one** is a mantissa over a power of two that is no
smaller. -/
theorem le_two_pow {x : Float32} {p : Parts} (h : parts? x = some p)
    (positive : p.negative = false) (unit : ¬1 < x) :
    p.exponent < 0 ∧ p.mantissa ≤ 2 ^ (-p.exponent).toNat := by
  have small := mantissa_lt h
  rw [lt_iff, unpack_one] at unit
  rw [parts?_eq] at h
  cases unpacked : x.toModel.unpack with
  | infinity sign =>
    rw [unpacked] at h
    cases h
  | notANumber =>
    rw [unpacked] at h
    cases h
  | zero sign =>
    rw [unpacked] at h
    cases h
    simp
  | finite sign m e pos =>
    rw [unpacked] at h unit
    cases h
    cases sign with
    | negative => cases positive
    | positive =>
      dsimp only at small ⊢
      have order : ¬(compare (-23) e).then (compare leadingBit m) = .lt :=
        fun above => unit (congrArg some above)
      rw [Ordering.then_eq_lt, compare_lt_iff_lt, compare_eq_iff_eq, compare_lt_iff_lt, not_or,
        not_and] at order
      obtain ⟨le, tie⟩ := order
      refine ⟨by omega, ?_⟩
      rcases Int.lt_or_eq_of_le (not_lt.mp le) with lt | rfl
      · calc
          m ≤ 2 ^ 24 := small.le
          _ ≤ 2 ^ (-e).toNat := Nat.pow_le_pow_right (by decide) (by omega)
      · exact not_lt.mp (tie rfl)

/-- A number that is neither finite nor above one is not above zero. -/
theorem not_pos_of_parts?_eq_none {x : Float32} (h : parts? x = none) (unit : ¬1 < x) :
    ¬0 < x := by
  rw [lt_iff, unpack_one] at unit
  rw [parts?_eq] at h
  rw [lt_iff, unpack_zero]
  cases unpacked : x.toModel.unpack with
  | infinity sign =>
    rw [unpacked] at unit
    cases sign with
    | negative =>
      intro above
      cases above
    | positive => exact absurd rfl unit
  | notANumber =>
    intro above
    cases above
  | zero sign =>
    rw [unpacked] at h
    cases h
  | finite sign m e pos =>
    rw [unpacked] at h
    cases h

/-! ## Rounding whole numbers -/

/-- A number with no more digits than are kept is kept. -/
theorem leadingBits_of_lt {digits n : Nat} (h : n < 2 ^ digits) : leadingBits digits n = n := by
  unfold leadingBits
  rcases Nat.eq_zero_or_pos n with rfl | pos
  · simp
  · have log : n.log2 < digits := (Nat.log2_lt pos.ne').mpr h
    have drop : n.log2 + 1 - digits = 0 := by omega
    simp [drop, Nat.mod_one]

/-- A fraction of `n`, rounded, is no more than `n`. -/
theorem nearestWhole_le {m n : Nat} {e : Int} (neg : e < 0) (h : m ≤ 2 ^ (-e).toNat) :
    nearestWhole (m * n) e ≤ n := by
  obtain ⟨k, hk⟩ : ∃ k, (-e).toNat = k + 1 := ⟨(-e).toNat - 1, by omega⟩
  rw [hk] at h
  have half : 2 ^ k < 2 ^ (k + 1) := Nat.pow_lt_pow_right (by decide) (Nat.lt_succ_self k)
  unfold nearestWhole
  rw [if_neg (not_le.mpr neg), hk, Nat.add_sub_cancel, Nat.shiftRight_eq_div_pow,
    Nat.one_shiftLeft]
  refine Nat.le_of_lt_succ ((Nat.div_lt_iff_lt_mul (Nat.two_pow_pos _)).mpr ?_)
  calc
    m * n + 2 ^ k < 2 ^ (k + 1) * n + 2 ^ (k + 1) :=
      Nat.add_lt_add_of_le_of_lt (Nat.mul_le_mul_right n h) half
    _ = n.succ * 2 ^ (k + 1) := by rw [Nat.succ_mul, Nat.mul_comm]

/-! ## Shares by the parts of the fraction -/

theorem share_of_parts?_eq_none {x : Float32} (h : parts? x = none) (unit : ¬1 < x) (n : Nat) :
    share x n = 0 := by
  unfold share
  rw [h]
  exact if_neg (not_pos_of_parts?_eq_none h unit)

theorem share_of_negative {x : Float32} {p : Parts} (h : parts? x = some p)
    (negative : p.negative = true) (n : Nat) : share x n = 0 := by
  unfold share
  rw [h]
  exact if_pos negative

/-- Of fewer than `2²⁹` units no digit is lost before the share is rounded. -/
theorem share_of_parts? {x : Float32} {n : Nat} {p : Parts} (few : n < 2 ^ 29)
    (h : parts? x = some p) (positive : p.negative = false) :
    share x n = min (nearestWhole (p.mantissa * n) p.exponent) (UInt64.size - 1) := by
  have count : leadingBits 53 n = n := leadingBits_of_lt (by omega)
  have product : leadingBits 53 (p.mantissa * n) = p.mantissa * n := by
    refine leadingBits_of_lt ?_
    calc
      p.mantissa * n < 2 ^ 24 * 2 ^ 29 := Nat.mul_lt_mul'' (mantissa_lt h) few
      _ = 2 ^ 53 := by norm_num
  unfold share
  rw [h]
  dsimp only
  rw [positive, if_neg Bool.false_ne_true, count, product]

/-- **A fraction that is not above one, of fewer than `2²⁹` units, is no more than all of them.** -/
theorem share_le {x : Float32} {n : Nat} (few : n < 2 ^ 29) (unit : ¬1 < x) : share x n ≤ n := by
  cases h : parts? x with
  | none =>
    rw [share_of_parts?_eq_none h unit]
    exact Nat.zero_le n
  | some p =>
    cases positive : p.negative with
    | true =>
      rw [share_of_negative h positive]
      exact Nat.zero_le n
    | false =>
      obtain ⟨neg, le⟩ := le_two_pow h positive unit
      rw [share_of_parts? few h positive]
      exact (min_le_left _ _).trans (nearestWhole_le neg le)

end Single

instance : Scalar.ShareLaws Float32 where
  share_le x n few := by
    refine Single.share_le few ?_
    unfold Scalar.clampUnit Scalar.clamp
    split
    · exact show ¬(1 : Float32) < 0 by decide
    · split
      · exact show ¬(1 : Float32) < 1 by decide
      · assumption

end MovingLight
