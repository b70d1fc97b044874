import MovingLight.Proofs.Scalar.Monotone
import MovingLight.Proofs.Scalar.Share

/-!
# Portions — shares in the order of their fractions

A share of a duration grows with its fraction, from nothing to the whole
(`Scalar.PortionLaws`). Both readings have this from one formula, `Scalar.portion`: the
fraction, brought between zero and one, times the duration, to the nearest whole number.

In single precision the formula holds because nothing is rounded before the end. A fraction has
24 binary digits and a duration below `2²⁹` has 29, and the product carries 53. So a share is
read off what its fraction is worth (`Single.share_clampUnit`). An indefinite fraction is worth
nothing and has no share, which is why the larger of two fractions has the larger share even
where one of them is indefinite.
-/

namespace MovingLight

/-- **Shares keep the order of their fractions**, and reach from nothing to the whole. -/
class Scalar.PortionLaws (α : Type) [Scalar α] : Prop extends Scalar.ShareLaws α where
  share_mono : ∀ (x y : α) (n : Nat), n < 2 ^ 29 → x ≤ y →
    share (clampUnit x) n ≤ share (clampUnit y) n
  share_zero : ∀ n : Nat, n < 2 ^ 29 → share (clampUnit (0 : α)) n = 0
  share_one : ∀ n : Nat, n < 2 ^ 29 → share (clampUnit (1 : α)) n = n
  share_greater : ∀ (x y : α) (n : Nat), n < 2 ^ 29 →
    share (clampUnit (greater x y)) n = max (share (clampUnit x) n) (share (clampUnit y) n)

/-! ## Portions -/

namespace Scalar

/-- A fraction of a whole number of units, to the nearest unit. -/
def portion (q : ℚ) (n : ℕ) : ℕ := ⌊max 0 (min 1 q) * n + 1 / 2⌋₊

theorem portion_mono (n : ℕ) : Monotone (portion · n) := by
  intro p q h
  show portion p n ≤ portion q n
  unfold portion
  gcongr

theorem portion_zero (n : ℕ) : portion 0 n = 0 := by
  rw [portion, min_eq_right zero_le_one, max_self, zero_mul]
  exact Nat.floor_eq_zero.mpr (by norm_num)

theorem portion_one (n : ℕ) : portion 1 n = n := by
  rw [portion, min_self, max_eq_right zero_le_one, one_mul, Nat.floor_eq_iff (by positivity)]
  constructor <;> linarith

theorem portion_le (q : ℚ) (n : ℕ) : portion q n ≤ n := by
  have capped : max 0 (min 1 q) ≤ 1 := max_le zero_le_one (min_le_left 1 q)
  calc
    portion q n ≤ ⌊(1 : ℚ) * n + 1 / 2⌋₊ := by unfold portion; gcongr
    _ = portion 1 n := by rw [portion, min_self, max_eq_right zero_le_one]
    _ = n := portion_one n

/-! ## The exact reading -/

theorem share_clampUnit_exact [ExactReading] (x : ℚ) {n : ℕ} (few : n < 2 ^ 29) :
    share (clampUnit x) n = portion x n := by
  have clamped : clampUnit x = max 0 (min 1 x) := by
    unfold clampUnit clamp
    grind
  have rounded : share (clampUnit x) n = min (portion x n) (UInt64.size - 1) := by
    rw [clamped]
    rfl
  rw [rounded]
  refine min_eq_left ((portion_le x n).trans ?_)
  exact few.le.trans (by decide)

end Scalar

instance [ExactReading] : Scalar.PortionLaws ℚ where
  share_mono x y n few h := by
    rw [Scalar.share_clampUnit_exact x few, Scalar.share_clampUnit_exact y few]
    exact Scalar.portion_mono n h
  share_zero n few := by rw [Scalar.share_clampUnit_exact 0 few, Scalar.portion_zero]
  share_one n few := by rw [Scalar.share_clampUnit_exact 1 few, Scalar.portion_one]
  share_greater x y n few := by
    rw [Scalar.greater_eq_max, Scalar.share_clampUnit_exact _ few,
      Scalar.share_clampUnit_exact x few, Scalar.share_clampUnit_exact y few]
    exact (Scalar.portion_mono n).map_max

/-! ## Single precision -/

namespace Single

/-- What a number is worth, by its parts. -/
theorem worth_of_parts? {x : Float32} {p : Parts} (h : parts? x = some p) :
    worth x = if p.negative then -(p.mantissa * 2 ^ p.exponent : ℚ)
      else p.mantissa * 2 ^ p.exponent := by
  rw [parts?_eq] at h
  unfold worth
  cases unpacked : x.toModel.unpack with
  | infinity s =>
    rw [unpacked] at h
    cases h
  | notANumber =>
    rw [unpacked] at h
    cases h
  | zero s =>
    rw [unpacked] at h
    cases h
    simp [worthOf]
  | finite s m e pos =>
    rw [unpacked] at h
    cases h
    cases s <;> rfl

theorem worth_of_indefinite {x : Float32} (h : ¬x ≤ x) : worth x = 0 := by
  rw [le_self_iff] at h
  unfold worth
  cases unpacked : x.toModel.unpack <;> rw [unpacked] at h <;> first | rfl | exact absurd rfl h

/-- A number without parts that is not above one is worth nothing, or less. -/
theorem worth_nonpos_of_parts?_eq_none {x : Float32} (h : parts? x = none) (unit : ¬1 < x) :
    worth x ≤ 0 := by
  by_cases definite : x ≤ x
  · have not_pos := not_pos_of_parts?_eq_none h unit
    have zero : (0 : Float32) ≤ 0 := by decide
    rw [lt_iff_worth zero definite, worth_zero] at not_pos
    exact not_lt.mp not_pos
  · exact (worth_of_indefinite definite).le

/-- Rounding a half up, as a floor. -/
theorem nearestWhole_eq_floor {e : ℤ} (neg : e < 0) (m : ℕ) :
    nearestWhole m e = ⌊(m : ℚ) * 2 ^ e + 1 / 2⌋₊ := by
  obtain ⟨k, rfl⟩ : ∃ k : ℕ, e = -(k + 1 : ℕ) := ⟨(-e).toNat - 1, by omega⟩
  have halves : (m : ℚ) * 2 ^ (-(k + 1 : ℕ) : ℤ) + 1 / 2 =
      ((m + 2 ^ k : ℕ) : ℚ) / (2 ^ (k + 1) : ℕ) := by
    rw [zpow_neg, zpow_natCast]
    push_cast
    field_simp
    ring
  rw [halves, Nat.floor_div_eq_div, nearestWhole, if_neg (not_le.mpr neg), neg_neg,
    Int.toNat_natCast, Nat.add_sub_cancel, Nat.one_shiftLeft, Nat.shiftRight_eq_div_pow]

theorem portion_of_nonpos {q : ℚ} (h : q ≤ 0) (n : ℕ) : Scalar.portion q n = 0 := by
  refine Nat.le_zero.mp ?_
  calc
    Scalar.portion q n ≤ Scalar.portion 0 n := Scalar.portion_mono n h
    _ = 0 := Scalar.portion_zero n

/-- **A share is the portion that its fraction is worth.** -/
theorem share_eq_portion {x : Float32} {n : ℕ} (few : n < 2 ^ 29) (unit : ¬1 < x) :
    share x n = Scalar.portion (worth x) n := by
  cases h : parts? x with
  | none =>
    rw [share_of_parts?_eq_none h unit,
      portion_of_nonpos (worth_nonpos_of_parts?_eq_none h unit)]
  | some p =>
    have worth_eq := worth_of_parts? h
    cases positive : p.negative with
    | true =>
      rw [positive, if_pos rfl] at worth_eq
      have below : worth x ≤ 0 := by
        rw [worth_eq]
        exact neg_nonpos.mpr (by positivity)
      rw [share_of_negative h positive, portion_of_nonpos below]
    | false =>
      rw [positive, if_neg Bool.false_ne_true] at worth_eq
      obtain ⟨neg, le⟩ := le_two_pow h positive unit
      have capped : nearestWhole (p.mantissa * n) p.exponent ≤ UInt64.size - 1 :=
        (nearestWhole_le neg le).trans (few.le.trans (by decide))
      have above : 0 ≤ worth x := by
        rw [worth_eq]
        positivity
      have below : worth x ≤ 1 := by
        obtain ⟨k, hk⟩ : ∃ k : ℕ, p.exponent = -k := ⟨(-p.exponent).toNat, by omega⟩
        rw [hk, neg_neg, Int.toNat_natCast] at le
        rw [worth_eq, hk, zpow_neg, zpow_natCast, ← div_eq_mul_inv]
        exact div_le_one_of_le₀ (by exact_mod_cast le) (by positivity)
      rw [share_of_parts? few h positive, min_eq_left capped, nearestWhole_eq_floor neg,
        Scalar.portion, min_eq_right below, max_eq_right above, worth_eq]
      push_cast
      rw [mul_right_comm]

/-- **The share of a fraction that is first brought between zero and one.** -/
theorem share_clampUnit (x : Float32) {n : ℕ} (few : n < 2 ^ 29) :
    share (Scalar.clampUnit x) n = Scalar.portion (worth x) n := by
  have zero : (0 : Float32) ≤ 0 := by decide
  have one : (1 : Float32) ≤ 1 := by decide
  unfold Scalar.clampUnit Scalar.clamp
  split
  case isTrue below =>
    have definite := (le_self_of_le (le_of_lt below)).1
    rw [lt_iff_worth definite zero, worth_zero] at below
    rw [share_eq_portion few (by decide), worth_zero, Scalar.portion_zero,
      portion_of_nonpos below.le]
  case isFalse =>
    split
    case isTrue above =>
      have definite := (le_self_of_le (le_of_lt above)).2
      rw [lt_iff_worth one definite, worth_one] at above
      rw [share_eq_portion few (by decide), worth_one, Scalar.portion, Scalar.portion, min_self,
        min_eq_left above.le]
    case isFalse unit => exact share_eq_portion few unit

/-- An indefinite fraction has no share. -/
theorem share_of_indefinite {x : Float32} (h : ¬x ≤ x) {n : ℕ} (few : n < 2 ^ 29) :
    share (Scalar.clampUnit x) n = 0 := by
  rw [share_clampUnit x few, worth_of_indefinite h, Scalar.portion_zero]

theorem share_mono {x y : Float32} {n : ℕ} (few : n < 2 ^ 29) (h : x ≤ y) :
    share (Scalar.clampUnit x) n ≤ share (Scalar.clampUnit y) n := by
  obtain ⟨hx, hy⟩ := le_self_of_le h
  rw [share_clampUnit x few, share_clampUnit y few]
  exact Scalar.portion_mono n ((le_iff_worth hx hy).mp h)

theorem share_greater (x y : Float32) {n : ℕ} (few : n < 2 ^ 29) :
    share (Scalar.clampUnit (Scalar.greater x y)) n =
      max (share (Scalar.clampUnit x) n) (share (Scalar.clampUnit y) n) := by
  unfold Scalar.greater
  split
  case isTrue less => exact (max_eq_left (share_mono few (le_of_lt less))).symm
  case isFalse not_less =>
    split
    case isTrue hy =>
      by_cases hx : x ≤ x
      · rw [lt_iff_not_le hy hx, not_not] at not_less
        exact (max_eq_right (share_mono few not_less)).symm
      · rw [share_of_indefinite hx few, Nat.zero_max]
    case isFalse hy => rw [share_of_indefinite hy few, Nat.max_zero]

end Single

instance : Scalar.PortionLaws Float32 where
  share_mono _ _ _ few h := Single.share_mono few h
  share_zero n few := by
    show Single.share (Scalar.clampUnit 0) n = 0
    rw [Single.share_clampUnit 0 few, Single.worth_zero, Scalar.portion_zero]
  share_one n few := by
    show Single.share (Scalar.clampUnit 1) n = n
    rw [Single.share_clampUnit 1 few, Single.worth_one, Scalar.portion_one]
  share_greater x y _ few := Single.share_greater x y few

end MovingLight
