import Mathlib.Data.Rat.Floor
import Mathlib.Order.Interval.Set.OrdConnected
import Mathlib.Tactic.FieldSimp
import Mathlib.Tactic.Linarith
import Mathlib.Tactic.Positivity
import Mathlib.Tactic.Ring
import MovingLight.Scalar
import MovingLight.Text.Decimal

/-!
# The exact reading of a scalar

Read exactly, a show is computed in rational numbers: sums, products and
quotients are what they are on paper, every number is finite, and nothing lies
between a number and its neighbour. Statements about levels and windows that
single precision would miss by half a unit in the last place are statements
about this reading.

What rational arithmetic cannot say is left open, in `ExactReading`: the sine
and the cosine, the number pi, and how doubles come in and go out. Nothing is
assumed of any of them. A statement about the exact reading therefore holds for
every sine, that of the machine included.

The second half is what the operations of a scalar come to: choosing and
limiting stay inside the interval they are given (`clamp_mem`, `between_mem`),
and of evenly spaced times only the last lies at the very end (`evenTime_lt_one`).
-/

namespace MovingLight

/-- **What an exact reading leaves open.** -/
class ExactReading where
  /-- Half a turn, in radians. -/
  pi : ℚ
  /-- One degree, in radians. -/
  degree : ℚ
  sin : ℚ → ℚ
  cos : ℚ → ℚ
  /-- What a double is worth. -/
  ofFloat : Float → ℚ
  /-- The double a number is written out as. -/
  toFloat : ℚ → Float

/-- The rational numbers as scalars. -/
instance ExactReading.scalar [ExactReading] : Scalar ℚ where
  literal _ := inferInstance
  decLt := inferInstance
  decLe := inferInstance
  decEq := inferInstance
  pi := ExactReading.pi
  degree := ExactReading.degree
  sin := ExactReading.sin
  cos := ExactReading.cos
  abs x := |x|
  signum x := if x < 0 then -1 else 1
  floor x := ⌊x⌋
  round x := if x < 0 then -⌊-x + 1 / 2⌋ else ⌊x + 1 / 2⌋
  emod x y := x - ⌊x / |y|⌋ * |y|
  isFinite _ := true
  maxFinite := none
  below := id
  totalLe x y := x ≤ y
  toNat x := min ⌊x⌋.toNat (UInt64.size - 1)
  ofFloat := ExactReading.ofFloat
  toFloat := ExactReading.toFloat
  share x n := min ⌊x * n + 1 / 2⌋.toNat (UInt64.size - 1)
  fixed places x := Decimal.fixedText places (decide (x < 0)) x.num.natAbs x.den

namespace ExactReading

/-- A sine drawn by two parabolas a turn: the upper over the first half, the lower over the
second. -/
def parabola (x : ℚ) : ℚ :=
  let turn := x / (710 / 113) - ⌊x / (710 / 113)⌋
  if turn < 1 / 2 then 16 * turn * (1 / 2 - turn) else -(16 * (turn - 1 / 2) * (1 - turn))

/-- The worth of a finite double, by its sign, its fraction and its exponent. -/
def worth (x : Float) : ℚ :=
  let bits : Nat := x.toBits.toNat
  let exponent : Nat := bits / 2 ^ 52 % 2 ^ 11
  let fraction : Nat := bits % 2 ^ 52
  let size : ℚ :=
    if exponent = 0 then fraction / 2 ^ 1074
    else ((2 ^ 52 + fraction : Nat) : ℚ) * 2 ^ exponent / 2 ^ 1075
  if bits < 2 ^ 63 then size else -size

/-- A reading to compute with. -/
@[reducible] def parabolic : ExactReading where
  pi := 355 / 113
  degree := 71 / 4068
  sin := parabola
  cos x := parabola (x + 355 / 226)
  ofFloat := worth
  toFloat x := Float.ofInt x.num / Float.ofNat x.den

end ExactReading

namespace Scalar

variable [ExactReading]

/-! ## Comparing -/

@[simp] theorem equal_iff {x y : ℚ} : equal x y = true ↔ x = y := by
  unfold equal
  rw [decide_eq_true_iff]
  exact le_antisymm_iff.symm

/-- Two numbers have one sign where both are below zero or neither is. -/
theorem signum_eq_signum {x y : ℚ} : signum x = signum y ↔ (x < 0 ↔ y < 0) := by
  show (if x < 0 then (-1 : ℚ) else 1) = (if y < 0 then -1 else 1) ↔ _
  have differ : ¬((-1 : ℚ) = 1) := by norm_num
  have differ' : ¬((1 : ℚ) = -1) := by norm_num
  by_cases hx : x < 0 <;> by_cases hy : y < 0 <;>
    simp only [hx, hy, if_true, if_false, differ, differ', iff_true, iff_false, not_true]

/-! ## Choosing and limiting -/

theorem lesser_eq_min (x y : ℚ) : lesser x y = min x y := by
  unfold lesser
  split
  · rename_i h
    exact (min_eq_left (le_of_lt h)).symm
  · rename_i h
    rw [if_pos (le_refl y)]
    exact (min_eq_right (not_lt.mp h)).symm

theorem greater_eq_max (x y : ℚ) : greater x y = max x y := by
  unfold greater
  split
  · rename_i h
    exact (max_eq_left (le_of_lt h)).symm
  · rename_i h
    rw [if_pos (le_refl y)]
    exact (max_eq_right (not_lt.mp h)).symm

theorem lesser_mem {s : Set ℚ} {x y : ℚ} (hx : x ∈ s) (hy : y ∈ s) : lesser x y ∈ s := by
  rw [lesser_eq_min]
  rcases min_choice x y with h | h <;> rw [h] <;> assumption

theorem greater_mem {s : Set ℚ} {x y : ℚ} (hx : x ∈ s) (hy : y ∈ s) : greater x y ∈ s := by
  rw [greater_eq_max]
  rcases max_choice x y with h | h <;> rw [h] <;> assumption

/-- A running minimum ends at the least of the numbers it has seen. -/
theorem foldl_runningMin (xs : List ℚ) : xs.foldl runningMin none = xs.min? := by
  cases xs with
  | nil => rfl
  | cons x xs =>
    show xs.foldl runningMin (some x) = some (xs.foldl min x)
    induction xs generalizing x with
    | nil => rfl
    | cons y xs ih =>
      rw [List.foldl_cons, List.foldl_cons, ← ih, runningMin, lesser_eq_min]

/-- A running maximum ends at the greatest of the numbers it has seen. -/
theorem foldl_runningMax (xs : List ℚ) : xs.foldl runningMax none = xs.max? := by
  cases xs with
  | nil => rfl
  | cons x xs =>
    show xs.foldl runningMax (some x) = some (xs.foldl max x)
    induction xs generalizing x with
    | nil => rfl
    | cons y xs ih =>
      rw [List.foldl_cons, List.foldl_cons, ← ih, runningMax, greater_eq_max]

/-- A number brought into an interval lies in it. -/
theorem clamp_mem {lo hi : ℚ} (h : lo ≤ hi) (x : ℚ) : clamp lo hi x ∈ Set.Icc lo hi := by
  unfold clamp
  split
  · exact ⟨le_refl lo, h⟩
  · rename_i hlo
    split
    · exact ⟨h, le_refl hi⟩
    · rename_i hhi
      exact ⟨not_lt.mp hlo, not_lt.mp hhi⟩

/-- A number inside an interval stays as it is. -/
theorem clamp_of_mem {lo hi x : ℚ} (h : x ∈ Set.Icc lo hi) : clamp lo hi x = x := by
  unfold clamp
  rw [if_neg (not_lt.mpr h.1), if_neg (not_lt.mpr h.2)]

theorem clampUnit_mem (x : ℚ) : clampUnit x ∈ Set.Icc (0 : ℚ) 1 :=
  clamp_mem (by norm_num) x

/-- A number a fraction of the way from one number to another lies between them. -/
theorem between_mem_uIcc (x y : ℚ) {u : ℚ} (hu : u ∈ Set.Icc (0 : ℚ) 1) :
    between x y u ∈ Set.uIcc x y := by
  obtain ⟨hu0, hu1⟩ := hu
  unfold between
  rw [Set.mem_uIcc]
  rcases le_total x y with h | h
  · left
    constructor <;> nlinarith
  · right
    constructor <;> nlinarith

/-- **What lies between two numbers of an interval lies in the interval.** -/
theorem between_mem {s : Set ℚ} [s.OrdConnected] {x y u : ℚ} (hx : x ∈ s) (hy : y ∈ s)
    (hu : u ∈ Set.Icc (0 : ℚ) 1) : between x y u ∈ s :=
  Set.OrdConnected.uIcc_subset ‹_› hx hy (between_mem_uIcc x y hu)

/-! ## Even spacing -/

theorem evenTime_le {i j : Nat} (h : i ≤ j) (n : Nat) : evenTime i n ≤ (evenTime j n : ℚ) := by
  unfold evenTime
  gcongr

theorem evenTime_lt_one {i n : Nat} (h : i + 1 < n) : evenTime i n < (1 : ℚ) := by
  have pos : (0 : ℚ) < ((n - 1 : Nat) : ℚ) := by
    rw [Nat.cast_pos]
    omega
  have before : (i : ℚ) < ((n - 1 : Nat) : ℚ) := by
    rw [Nat.cast_lt]
    omega
  unfold evenTime
  exact (div_lt_one pos).mpr before

theorem evenTime_mem {i n : Nat} (h : i < n) : evenTime i n ∈ Set.Icc (0 : ℚ) 1 := by
  have last : (i : ℚ) ≤ ((n - 1 : Nat) : ℚ) := by
    rw [Nat.cast_le]
    omega
  unfold evenTime
  exact ⟨div_nonneg (Nat.cast_nonneg _) (Nat.cast_nonneg _),
    div_le_one_of_le₀ last (Nat.cast_nonneg _)⟩

end Scalar

end MovingLight
