import MovingLight.Proofs.Scalar.Nearest

/-!
# Monotone — what rounding leaves of order

Sums and products of singles are not associative and do not cancel. Yet each operation keeps the
order of what it is given or turns it around, and for questions of what lies between what this is
enough. `Scalar.MonotoneLaws` says so, of both readings, and adds what an indefinite number does:
whatever is made of one is indefinite, so something definite was made of definite numbers only.

In single precision an operation is nearest to the exact one, which keeps the order strictly or
not. Where it is strict so is the nearest (`Single.le_of_nearest`). Where two operands differ and
their results do not, the result is zero; where the operands are the same there is one result,
but zeros of two signs count as the same operand and take a case of their own.

Infinite numbers are the ends. A finite number moves neither of them
(`Single.unpack_add_infinity`), and from anything up to the upper end it is infinitely far, so that
the tolerance of `Movement.apart` is kept by them as well (`Single.apart_of_le`). An infinite
number is no further from itself than any other is: the difference is indefinite, and an indefinite
difference is not above the tolerance.
-/

namespace MovingLight

/-- **What rounding leaves of arithmetic**: each operation keeps the order of its operands, and what
it makes of an indefinite one is indefinite. -/
class Scalar.MonotoneLaws (α : Type) [Scalar α] : Prop where
  le_trans : ∀ x y z : α, x ≤ y → y ≤ z → x ≤ z
  le_of_not_lt : ∀ x y : α, x ≤ x → y ≤ y → ¬x < y → y ≤ x
  isFinite_of_mem : ∀ lo hi x : α, isFinite lo = true → isFinite hi = true → lo ≤ x → x ≤ hi →
    isFinite x = true
  add_comm : ∀ x y : α, x + y = y + x
  mul_comm : ∀ x y : α, x * y = y * x
  sub_eq_add_neg : ∀ x y : α, x - y = x + -y
  add_le_add_right : ∀ x y c : α, x ≤ y → isFinite c = true → x + c ≤ y + c
  neg_le_neg : ∀ x y : α, x ≤ y → -y ≤ -x
  mul_le_mul_right : ∀ x y k : α, x ≤ y → isFinite x = true → isFinite y = true →
    isFinite k = true → 0 ≤ k → x * k ≤ y * k
  mul_le_mul_right_of_nonpos : ∀ x y k : α, x ≤ y → isFinite x = true → isFinite y = true →
    isFinite k = true → k ≤ 0 → y * k ≤ x * k
  /-- Nothing times a finite number is nothing, of either sign. -/
  mul_null : ∀ x c : α, x ≤ 0 → 0 ≤ x → isFinite c = true → x * c ≤ 0 ∧ 0 ≤ x * c
  half_le_half : ∀ x y : α, x ≤ y → isFinite x = true → isFinite y = true → x / 2 ≤ y / 2
  abs_nonneg : ∀ x : α, x ≤ x → 0 ≤ abs x
  abs_le : ∀ x c : α, -c ≤ x → x ≤ c → abs x ≤ c
  isFinite_neg : ∀ x : α, isFinite x = true → isFinite (-x) = true
  isFinite_half : ∀ x : α, isFinite x = true → isFinite (x / 2) = true
  isFinite_mul : ∀ u x : α, -1 ≤ u → u ≤ 1 → isFinite x = true → isFinite (u * x) = true
  /-- A part of a whole is at most all of it; there is none of one too large to be written. -/
  ratio_mem : ∀ i n : Nat, i ≤ n → (i : α) / (n : α) ≤ (i : α) / (n : α) →
    0 ≤ (i : α) / (n : α) ∧ (i : α) / (n : α) ≤ 1
  le_self_of_neg : ∀ x : α, -x ≤ -x → x ≤ x
  le_self_of_add : ∀ x y : α, x + y ≤ x + y → x ≤ x ∧ y ≤ y
  le_self_of_mul : ∀ x y : α, x * y ≤ x * y → x ≤ x ∧ y ≤ y
  le_self_of_half : ∀ x : α, x / 2 ≤ x / 2 → x ≤ x
  le_self_of_abs : ∀ x : α, abs x ≤ abs x → x ≤ x
  apart_self : ∀ x : α, Movement.apart x x = false
  apart_comm : ∀ x y : α, Movement.apart x y = Movement.apart y x
  le_self_of_apart : ∀ x y : α, Movement.apart x y = true → x ≤ x ∧ y ≤ y
  /-- What is apart stays apart further out. -/
  apart_of_le : ∀ lo x y hi : α, lo ≤ x → x ≤ y → y ≤ hi → Movement.apart x y = true →
    Movement.apart lo hi = true
  emod_turn_nonneg : ∀ x : α, emod x 360 ≤ emod x 360 → 0 ≤ emod x 360

/-! ## The exact reading -/

instance [ExactReading] : Scalar.MonotoneLaws ℚ where
  le_trans _ _ _ := le_trans
  le_of_not_lt _ _ _ _ := le_of_not_gt
  isFinite_of_mem _ _ _ _ _ _ _ := rfl
  add_comm := add_comm
  mul_comm := mul_comm
  sub_eq_add_neg := sub_eq_add_neg
  add_le_add_right _ _ c h _ := by gcongr
  neg_le_neg _ _ := neg_le_neg
  mul_le_mul_right _ _ _ h _ _ _ nonneg := mul_le_mul_of_nonneg_right h nonneg
  mul_le_mul_right_of_nonpos _ _ _ h _ _ _ nonpos := mul_le_mul_of_nonpos_right h nonpos
  mul_null x c h h' _ := by
    rw [h.antisymm h', zero_mul]
    exact ⟨le_rfl, le_rfl⟩
  half_le_half _ _ h _ _ := by gcongr
  abs_nonneg _ _ := abs_nonneg _
  abs_le _ _ h h' := abs_le.mpr ⟨h, h'⟩
  isFinite_neg _ _ := rfl
  isFinite_half _ _ := rfl
  isFinite_mul _ _ _ _ _ := rfl
  ratio_mem i n h _ := by
    have whole : (i : ℚ) ≤ n := Nat.cast_le.mpr h
    exact ⟨div_nonneg (Nat.cast_nonneg _) (Nat.cast_nonneg _),
      div_le_one_of_le₀ whole (Nat.cast_nonneg _)⟩
  le_self_of_neg _ _ := le_rfl
  le_self_of_add _ _ _ := ⟨le_rfl, le_rfl⟩
  le_self_of_mul _ _ _ := ⟨le_rfl, le_rfl⟩
  le_self_of_half _ _ := le_rfl
  le_self_of_abs _ _ := le_rfl
  apart_self x := by
    show decide ((0.0001 : ℚ) < |x - x|) = false
    rw [sub_self, abs_zero]
    exact decide_eq_false (by norm_num)
  apart_comm x y := by
    show decide ((0.0001 : ℚ) < |x - y|) = decide ((0.0001 : ℚ) < |y - x|)
    rw [abs_sub_comm]
  le_self_of_apart _ _ _ := ⟨le_rfl, le_rfl⟩
  apart_of_le lo x y hi h h' h'' apart := by
    have apart : (0.0001 : ℚ) < |x - y| := of_decide_eq_true apart
    have wider : |x - y| ≤ |lo - hi| := by
      rw [abs_of_nonpos (by linarith), abs_of_nonpos (by linarith)]
      linarith
    exact decide_eq_true (apart.trans_le wider)
  emod_turn_nonneg x _ := by
    show 0 ≤ x - ⌊x / |360|⌋ * |360|
    have below := Int.floor_le (x / |360|)
    rw [le_div_iff₀ (by norm_num)] at below
    linarith

/-! ## Single precision -/

namespace Single

open Float.Model (UnpackedFloat Format totalExponent)
open Float.Model.UnpackedFloat

variable {x y c : Float32}

/-! ### Finite and infinite numbers -/

/-- Infinite numbers are those that are worth more than any other. -/
theorem isFinite_iff_worth (h : x ≤ x) : x.isFinite = true ↔ |worth x| < 2 ^ 128 := by
  constructor
  · intro finite
    unfold worth
    rcases finite_cases finite with ⟨s, unpacked⟩ | ⟨s, m, e, pos, unpacked⟩
    · rw [unpacked, worthOf_zero, abs_zero]
      positivity
    · rw [unpacked, worthOf, abs_signed, abs_of_pos (kept_pos pos)]
      exact kept_lt_top (kept_of_unpack unpacked)
  · intro small
    show x.toModel.unpack.isFinite = true
    rw [le_self_iff] at h
    unfold worth at small
    cases unpacked : x.toModel.unpack with
    | notANumber =>
      rw [unpacked] at h
      cases h
    | infinity s =>
      rw [unpacked, worthOf, abs_signed, abs_of_pos (by positivity)] at small
      exact absurd small (lt_irrefl _)
    | zero s => rfl
    | finite s m e pos => rfl

theorem isFinite_of_mem {lo hi : Float32} (hlo : lo.isFinite = true) (hhi : hi.isFinite = true)
    (above : lo ≤ x) (below : x ≤ hi) : x.isFinite = true := by
  obtain ⟨definite_lo, definite⟩ := le_self_of_le above
  have definite_hi := (le_self_of_le below).2
  rw [isFinite_iff_worth definite_lo, abs_lt] at hlo
  rw [isFinite_iff_worth definite_hi, abs_lt] at hhi
  rw [le_iff_worth definite_lo definite] at above
  rw [le_iff_worth definite definite_hi] at below
  rw [isFinite_iff_worth definite, abs_lt]
  exact ⟨hlo.1.trans_le above, below.trans_lt hhi.2⟩

/-- A number that is not indefinite is finite or lies at one of the two ends. -/
theorem definite_cases (h : x ≤ x) :
    x.isFinite = true ∨ ∃ s, x.toModel.unpack = .infinity s := by
  rw [le_self_iff] at h
  cases unpacked : x.toModel.unpack with
  | notANumber =>
    rw [unpacked] at h
    cases h
  | infinity s => exact Or.inr ⟨s, rfl⟩
  | zero s => exact Or.inl (by show x.toModel.unpack.isFinite = true; rw [unpacked]; rfl)
  | finite s m e pos =>
    exact Or.inl (by show x.toModel.unpack.isFinite = true; rw [unpacked]; rfl)

theorem le_of_unpack_top (hx : x ≤ x) (hy : y.toModel.unpack = .infinity .positive) : x ≤ y := by
  have definite : y ≤ y := le_self_iff.mpr (by rw [hy]; rfl)
  rw [le_iff_worth hx definite, show worth y = 2 ^ 128 by rw [worth, hy]; rfl]
  exact (le_abs_self _).trans (abs_worth_le x)

theorem le_of_unpack_bottom (hy : y ≤ y) (hx : x.toModel.unpack = .infinity .negative) :
    x ≤ y := by
  have definite : x ≤ x := le_self_iff.mpr (by rw [hx]; rfl)
  rw [le_iff_worth definite hy, show worth x = -2 ^ 128 by rw [worth, hx]; rfl]
  exact neg_le_of_abs_le (abs_worth_le y)

/-! ### Signs and order of operands -/

theorem mul_comm_sign (s s' : Sign) : s * s' = s' * s := by cases s <;> cases s' <;> rfl

theorem add_swap (x y : Float32) : x + y = y + x := by
  rw [add_eq, add_eq]
  congr 2
  cases x.toModel.unpack with
  | notANumber => cases y.toModel.unpack <;> rfl
  | infinity s =>
    cases y.toModel.unpack with
    | infinity s' => cases s <;> cases s' <;> rfl
    | _ => rfl
  | zero s =>
    cases y.toModel.unpack with
    | zero s' => cases s <;> cases s' <;> rfl
    | _ => rfl
  | finite s m e pos =>
    cases y.toModel.unpack with
    | finite s' m' e' pos' =>
      simp only [UnpackedFloat.add, min_comm e e', Int.add_comm]
    | _ => rfl

theorem mul_swap (x y : Float32) : x * y = y * x := by
  rw [mul_eq, mul_eq]
  congr 2
  cases x.toModel.unpack <;> cases y.toModel.unpack <;>
    first
    | rfl
    | simp only [UnpackedFloat.mul, mul_comm_sign, Nat.mul_comm, Int.add_comm]

theorem unpack_neg (x : Float32) : (-x).toModel.unpack = x.toModel.unpack.neg := by
  have negated : (-x).toModel = Float32.Model.pack x.toModel.unpack.neg := rfl
  rw [negated]
  cases unpacked : x.toModel.unpack with
  | notANumber => rfl
  | infinity s => cases s <;> rfl
  | zero s => cases s <;> rfl
  | finite s m e pos => exact unpack_pack (kept_of_unpack unpacked)

theorem apply_neg (s : Sign) (n : ℤ) : (-s).apply n = -s.apply n := by
  cases s
  · exact (Int.neg_neg n).symm
  · rfl

theorem signed_neg (s : Sign) (q : ℚ) : signed (-s) q = -signed s q := by
  cases s
  · exact (neg_neg q).symm
  · rfl

theorem sub_eq_add (x y : Float32) : x - y = x + -y := by
  have difference : x - y = ⟨Float32.Model.pack
      (UnpackedFloat.sub .binary32 x.toModel.unpack y.toModel.unpack)⟩ := rfl
  rw [difference, add_eq, unpack_neg]
  congr 2
  cases x.toModel.unpack with
  | finite s m e pos =>
    cases y.toModel.unpack with
    | finite s' m' e' pos' =>
      simp only [UnpackedFloat.sub, UnpackedFloat.add, UnpackedFloat.neg, apply_neg,
        Int.sub_eq_add_neg]
    | _ => rfl
  | _ => cases y.toModel.unpack <;> rfl

theorem worth_neg (x : Float32) : worth (-x) = -worth x := by
  unfold worth
  rw [unpack_neg]
  cases x.toModel.unpack with
  | notANumber => exact neg_zero.symm
  | zero s => exact neg_zero.symm
  | infinity s => exact signed_neg s _
  | finite s m e pos => exact signed_neg s _

theorem isNaN_neg (u : UnpackedFloat) : u.neg.isNaN = u.isNaN := by cases u <;> rfl

theorem isFinite_neg (h : x.isFinite = true) : (-x).isFinite = true := by
  have finite : x.toModel.unpack.isFinite = true := h
  show (-x).toModel.unpack.isFinite = true
  rw [unpack_neg]
  cases unpacked : x.toModel.unpack <;> rw [unpacked] at finite <;> first | rfl | cases finite

theorem le_self_neg_iff : -x ≤ -x ↔ x ≤ x := by
  rw [le_self_iff, le_self_iff, unpack_neg, isNaN_neg]

theorem neg_le_of_le (h : x ≤ y) : -y ≤ -x := by
  obtain ⟨hx, hy⟩ := le_self_of_le h
  rw [le_iff_worth hx hy] at h
  rw [le_iff_worth (le_self_neg_iff.mpr hy) (le_self_neg_iff.mpr hx), worth_neg, worth_neg]
  linarith

/-! ### Indefinite operands -/

theorem isNaN_pack_iff (u : UnpackedFloat) :
    (Float32.Model.pack u).unpack.isNaN = false ↔ u.isNaN = false := by
  refine ⟨fun h => ?_, isNaN_pack⟩
  cases u with
  | notANumber => cases h
  | _ => rfl

/-- What an operation makes of definite numbers only is definite for no others. -/
theorem le_self_of_pack {op : UnpackedFloat → UnpackedFloat → UnpackedFloat}
    (left : ∀ v, op .notANumber v = .notANumber) (right : ∀ u, op u .notANumber = .notANumber)
    (h : (⟨Float32.Model.pack (op x.toModel.unpack y.toModel.unpack)⟩ : Float32) ≤
      ⟨Float32.Model.pack (op x.toModel.unpack y.toModel.unpack)⟩) : x ≤ x ∧ y ≤ y := by
  rw [le_self_iff] at h
  have definite := (isNaN_pack_iff _).mp h
  rw [le_self_iff, le_self_iff]
  constructor
  · cases hx : x.toModel.unpack with
    | notANumber =>
      rw [hx, left] at definite
      cases definite
    | _ => rfl
  · cases hy : y.toModel.unpack with
    | notANumber =>
      rw [hy, right] at definite
      cases definite
    | _ => rfl

theorem le_self_of_add (h : x + y ≤ x + y) : x ≤ x ∧ y ≤ y :=
  le_self_of_pack (fun _ => rfl) (fun u => by cases u <;> rfl) h

theorem le_self_of_mul (h : x * y ≤ x * y) : x ≤ x ∧ y ≤ y :=
  le_self_of_pack (fun _ => rfl) (fun u => by cases u <;> rfl) h

theorem le_self_of_div (h : x / y ≤ x / y) : x ≤ x ∧ y ≤ y :=
  le_self_of_pack (fun _ => rfl) (fun u => by cases u <;> rfl) h

/-! ### Sums -/

theorem unpack_add_infinity {s : Sign} (hx : x.toModel.unpack = .infinity s)
    (hc : c.isFinite = true) : (x + c).toModel.unpack = .infinity s := by
  have sum : UnpackedFloat.add .binary32 (.infinity s) c.toModel.unpack = .infinity s := by
    rcases finite_cases hc with ⟨s', unpacked⟩ | ⟨s', m, e, pos, unpacked⟩ <;> rw [unpacked] <;> rfl
  show (Float32.Model.pack
    (UnpackedFloat.add .binary32 x.toModel.unpack c.toModel.unpack)).unpack = .infinity s
  rw [hx, sum]
  cases s <;> rfl

theorem isFinite_of_worth_eq_zero (hx : x ≤ x) (h : worth x = 0) : x.isFinite = true := by
  rw [isFinite_iff_worth hx, h, abs_zero]
  positivity

/-- What is nearest to something single precision has is that, whatever it was made of. -/
theorem Nearest.le_of_worth {z : Float32} (hx : Nearest (worth z) x) (hy : Nearest (worth z) y) :
    x ≤ y := by
  rw [le_iff_worth hx.1 hy.1, hx.worth_eq, hy.worth_eq]

/-- **An operation that is rounded to the nearest keeps the order** if the exact one does. Where the
exact results are the same, so are the operands, or there is nothing to round. -/
theorem le_of_nearest {f : Float32 → Float32} {g : ℚ → ℚ} (hx : x ≤ x) (hy : y ≤ y)
    (near : Nearest (g (worth x)) (f x)) (near' : Nearest (g (worth y)) (f y))
    (le : g (worth x) ≤ g (worth y))
    (same : g (worth x) = g (worth y) → worth x = worth y ∨ ∃ z, g (worth x) = worth z)
    (zero : ∃ z, g 0 = worth z) (congr : x.toModel.unpack = y.toModel.unpack → f x = f y) :
    f x ≤ f y := by
  rcases le.lt_or_eq with less | equal
  · exact near.le_of_lt near' less
  · have exactly (h : ∃ z, g (worth x) = worth z) : f x ≤ f y := by
      obtain ⟨z, hz⟩ := h
      rw [← equal, hz] at near'
      rw [hz] at near
      exact near.le_of_worth near'
    rcases same equal with operands | held
    · rcases unpack_eq_of_worth_eq hx hy operands with unpacked | nothing
      · rw [← congr unpacked]
        exact near.1
      · exact exactly (by rwa [nothing])
    · exact exactly held

/-- **Adding a finite number keeps the order.** -/
theorem add_le_add_right (h : x ≤ y) (hc : c.isFinite = true) : x + c ≤ y + c := by
  obtain ⟨hx, hy⟩ := le_self_of_le h
  have hxc : x + c ≤ x + c := add_swap c x ▸ le_self_add hc hx
  have hyc : y + c ≤ y + c := add_swap c y ▸ le_self_add hc hy
  have worth_le := (le_iff_worth hx hy).mp h
  rcases definite_cases hx with finite | ⟨s, unpacked⟩
  · rcases definite_cases hy with finite' | ⟨s', unpacked'⟩
    · exact le_of_nearest (f := (· + c)) (g := (· + worth c)) hx hy (nearest_add finite hc)
        (nearest_add finite' hc) (by linarith) (fun same => Or.inl (by linarith))
        ⟨c, zero_add _⟩ fun same => by simp only [add_eq, same]
    · cases s' with
      | positive => exact le_of_unpack_top hxc (unpack_add_infinity unpacked' hc)
      | negative =>
        have worth_y : worth y = -2 ^ 128 := by
          rw [worth, unpacked']
          rfl
        have inside := abs_lt.mp ((isFinite_iff_worth hx).mp finite)
        linarith
  · cases s with
    | negative => exact le_of_unpack_bottom hyc (unpack_add_infinity unpacked hc)
    | positive =>
      have worth_x : worth x = 2 ^ 128 := by
        rw [worth, unpacked]
        rfl
      have same : worth x = worth y :=
        worth_le.antisymm (worth_x ▸ le_of_abs_le (abs_worth_le y))
      rcases unpack_eq_of_worth_eq hx hy same with equal | zero
      · have sums : x + c = y + c := by rw [add_eq, add_eq, equal]
        rwa [← sums]
      · norm_num [worth_x] at zero

/-! ### Products -/

theorem worth_zero : worth 0 = 0 := rfl

/-- **Multiplying by a finite number keeps the order or turns it around**, as the sign is. -/
theorem mul_le_mul_of_worth (hx : x.isFinite = true) (hy : y.isFinite = true)
    (hc : c.isFinite = true) (h : worth x * worth c ≤ worth y * worth c) : x * c ≤ y * c := by
  refine le_of_nearest (f := (· * c)) (g := (· * worth c)) (le_self_of_isFinite hx)
    (le_self_of_isFinite hy) (nearest_mul hx hc) (nearest_mul hy hc) h (fun same => ?_)
    ⟨0, zero_mul _⟩ fun same => by simp only [mul_eq, same]
  rcases mul_eq_mul_right_iff.mp same with operands | zero
  · exact Or.inl operands
  · exact Or.inr ⟨0, by simp only [zero, mul_zero, worth_zero]⟩

theorem mul_le_mul_right (h : x ≤ y) (hx : x.isFinite = true) (hy : y.isFinite = true)
    (hc : c.isFinite = true) (nonneg : 0 ≤ c) : x * c ≤ y * c := by
  rw [le_iff_worth (by decide) (le_self_of_isFinite hc), worth_zero] at nonneg
  rw [le_iff_worth (le_self_of_isFinite hx) (le_self_of_isFinite hy)] at h
  exact mul_le_mul_of_worth hx hy hc (mul_le_mul_of_nonneg_right h nonneg)

theorem mul_le_mul_right_of_nonpos (h : x ≤ y) (hx : x.isFinite = true) (hy : y.isFinite = true)
    (hc : c.isFinite = true) (nonpos : c ≤ 0) : y * c ≤ x * c := by
  rw [le_iff_worth (le_self_of_isFinite hc) (by decide), worth_zero] at nonpos
  rw [le_iff_worth (le_self_of_isFinite hx) (le_self_of_isFinite hy)] at h
  exact mul_le_mul_of_worth hy hx hc (mul_le_mul_of_nonpos_right h nonpos)

/-- Nothing times a finite number is nothing. -/
theorem mul_null (h : x ≤ 0) (h' : 0 ≤ x) (hc : c.isFinite = true) : x * c ≤ 0 ∧ 0 ≤ x * c := by
  have definite := (le_self_of_le h).1
  have nothing : worth x = 0 := by
    rw [le_iff_worth definite (by decide), worth_zero] at h
    rw [le_iff_worth (by decide) definite, worth_zero] at h'
    exact h.antisymm h'
  have near := nearest_mul (isFinite_of_worth_eq_zero definite nothing) hc
  rw [nothing, zero_mul, ← worth_zero] at near
  rw [le_iff_worth near.1 (by decide), le_iff_worth (by decide) near.1, near.worth_eq]
  exact ⟨le_rfl, le_rfl⟩

theorem unpack_two : (2 : Float32).toModel.unpack =
    .finite .positive leadingBit (-22) (by decide) := rfl

theorem worth_two : worth 2 = 2 := by
  rw [worth, unpack_two]
  norm_num [worthOf, signed, leadingBit]

theorem half_le_half (h : x ≤ y) (hx : x.isFinite = true) (hy : y.isFinite = true) :
    x / 2 ≤ y / 2 := by
  have two : (2 : Float32).isFinite = true := by decide
  have nonzero : worth 2 ≠ 0 := by norm_num [worth_two]
  have definite := le_self_of_isFinite hx
  have definite' := le_self_of_isFinite hy
  rw [le_iff_worth definite definite'] at h
  have near := nearest_div hx two nonzero
  have near' := nearest_div hy two nonzero
  rw [worth_two] at near near'
  exact le_of_nearest (f := (· / 2)) (g := (· / 2)) definite definite' near near' (by linarith)
    (fun same => Or.inl (by linarith)) ⟨0, zero_div _⟩ fun same => by simp only [div_eq, same]

/-! ### Magnitudes -/

theorem unpack_abs_eq (x : Float32) : x.abs.toModel.unpack = x.toModel.unpack.abs := by
  have magnitude : x.abs.toModel = Float32.Model.pack x.toModel.unpack.abs := rfl
  rw [magnitude]
  cases unpacked : x.toModel.unpack with
  | notANumber => rfl
  | infinity s => cases s <;> rfl
  | zero s => cases s <;> rfl
  | finite s m e pos => exact unpack_pack (kept_of_unpack unpacked)

theorem worth_abs (x : Float32) : worth x.abs = |worth x| := by
  unfold worth
  rw [unpack_abs_eq]
  cases x.toModel.unpack with
  | notANumber => exact abs_zero.symm
  | zero s => exact abs_zero.symm
  | infinity s =>
    rw [worthOf, abs_signed, abs_of_pos (by positivity)]
    rfl
  | finite s m e pos =>
    rw [worthOf, abs_signed, abs_of_pos (kept_pos pos)]
    rfl

theorem le_self_abs_iff : x.abs ≤ x.abs ↔ x ≤ x := by
  rw [le_self_iff, le_self_iff, unpack_abs_eq]
  cases x.toModel.unpack <;> exact Iff.rfl

theorem zero_le_abs (h : x ≤ x) : 0 ≤ x.abs := by
  rw [le_iff_worth (by decide) (le_self_abs_iff.mpr h), worth_abs]
  exact abs_nonneg _

theorem abs_le_of_mem (h : -c ≤ x) (h' : x ≤ c) : x.abs ≤ c := by
  obtain ⟨definite, hc⟩ := le_self_of_le h'
  rw [le_iff_worth (le_self_of_le h).1 definite, worth_neg] at h
  rw [le_iff_worth definite hc] at h'
  rw [le_iff_worth (le_self_abs_iff.mpr definite) hc, worth_abs]
  exact abs_le.mpr ⟨h, h'⟩

/-- What is nearest to a number no larger than a finite one is finite. -/
theorem Nearest.isFinite {q : ℚ} (h : Nearest q x) (hy : y.isFinite = true)
    (small : |q| ≤ |worth y|) : x.isFinite = true := by
  have size := le_self_abs_iff.mpr (le_self_of_isFinite hy)
  have finite : y.abs.isFinite = true := by
    rw [isFinite_iff_worth size, worth_abs, abs_abs]
    exact (isFinite_iff_worth (le_self_of_isFinite hy)).mp hy
  obtain ⟨low, high⟩ := abs_le.mp small
  refine isFinite_of_mem (isFinite_neg finite) finite ?_ ?_
  · exact h.ge_of_ge (le_self_neg_iff.mpr size) (by rwa [worth_neg, worth_abs])
  · exact h.le_of_le size (by rwa [worth_abs])

theorem isFinite_half (h : x.isFinite = true) : (x / 2).isFinite = true := by
  have near := nearest_div h (show (2 : Float32).isFinite = true by decide)
    (by norm_num [worth_two])
  refine near.isFinite h ?_
  rw [worth_two, abs_div, abs_two]
  linarith [abs_nonneg (worth x)]

theorem isFinite_mul (h : -1 ≤ c) (h' : c ≤ 1) (hx : x.isFinite = true) :
    (c * x).isFinite = true := by
  have finite : c.isFinite = true := isFinite_of_mem (by decide) (by decide) h h'
  have definite := le_self_of_isFinite finite
  rw [le_iff_worth (by decide) definite, worth_neg, worth_one] at h
  rw [le_iff_worth definite (by decide), worth_one] at h'
  refine (nearest_mul finite hx).isFinite hx ?_
  rw [abs_mul]
  exact mul_le_of_le_one_left (abs_nonneg _) (abs_le.mpr ⟨h, h'⟩)

/-! ### Parts of a whole -/

theorem natCast_le {m n : ℕ} (h : m ≤ n) : (m : Float32) ≤ (n : Float32) := by
  rcases h.lt_or_eq with less | rfl
  · exact (nearest_natCast m).le_of_lt (nearest_natCast n) (Nat.cast_lt.mpr less)
  · exact (nearest_natCast m).1

theorem natCast_one : ((1 : ℕ) : Float32) = 1 := by decide

theorem natCast_zero : ((0 : ℕ) : Float32) = 0 := by decide

theorem zero_le_natCast (n : ℕ) : 0 ≤ (n : Float32) := natCast_zero ▸ natCast_le (Nat.zero_le n)

theorem worth_div_infinity {s : Sign} (hx : x.isFinite = true)
    (hy : y.toModel.unpack = .infinity s) : worth (x / y) = 0 := by
  have quotient : ∃ s', UnpackedFloat.div .binary32 x.toModel.unpack (.infinity s) = .zero s' := by
    rcases finite_cases hx with ⟨s', unpacked⟩ | ⟨s', m, e, pos, unpacked⟩ <;> rw [unpacked] <;>
      exact ⟨_, rfl⟩
  obtain ⟨s', quotient⟩ := quotient
  rw [div_eq, hy, quotient]
  cases s' <;> rfl

theorem not_definite_div {s s' : Sign} (hx : x.toModel.unpack = .infinity s)
    (hy : y.toModel.unpack = .infinity s') : ¬x / y ≤ x / y := by
  rw [le_self_iff, div_eq, hx, hy]
  exact fun definite => nomatch (isNaN_pack_iff .notANumber).mp definite

/-- A part of a whole lies in the unit interval, unless both are too large to be written. -/
theorem ratio_mem {i n : ℕ} (h : i ≤ n)
    (definite : (i : Float32) / (n : Float32) ≤ (i : Float32) / (n : Float32)) :
    0 ≤ (i : Float32) / (n : Float32) ∧ (i : Float32) / (n : Float32) ≤ 1 := by
  have definite_i := (nearest_natCast i).1
  have definite_n := (nearest_natCast n).1
  have part_le := (le_iff_worth definite_i definite_n).mp (natCast_le h)
  have part_nonneg := (le_iff_worth (by decide) definite_i).mp (zero_le_natCast i)
  rw [worth_zero] at part_nonneg
  rcases definite_cases definite_n with finite | ⟨s, unpacked⟩
  · have part_finite := isFinite_of_mem (by decide) finite (zero_le_natCast i) (natCast_le h)
    rcases Nat.eq_zero_or_pos n with rfl | pos
    · obtain rfl := Nat.le_zero.mp h
      exact absurd definite (by decide)
    · have one_le := (le_iff_worth (by decide) definite_n).mp (natCast_one ▸ natCast_le pos)
      rw [worth_one] at one_le
      have near := nearest_div part_finite finite (by linarith)
      constructor
      · exact near.ge_of_ge (by decide) (div_nonneg part_nonneg (by linarith))
      · exact near.le_of_le (by decide) (by
          rw [worth_one]
          exact div_le_one_of_le₀ part_le (by linarith))
  · rcases definite_cases definite_i with part_finite | ⟨s', unpacked'⟩
    · have nothing := worth_div_infinity part_finite unpacked
      constructor
      · rw [le_iff_worth (by decide) definite, nothing, worth_zero]
      · rw [le_iff_worth definite (by decide), nothing, worth_one]
        exact zero_le_one
    · exact absurd definite (not_definite_div unpacked' unpacked)

/-- Nothing of a whole is nothing, however large the whole is. -/
theorem zero_div_natCast {n : ℕ} (h : 0 < n) : (0 : Float32) / (n : Float32) = 0 := by
  have definite := (nearest_natCast n).1
  have one_le := (le_iff_worth (by decide) definite).mp (natCast_one ▸ natCast_le h)
  rw [worth_one] at one_le
  rw [div_eq, unpack_zero]
  unfold worth at one_le
  cases unpacked : (n : Float32).toModel.unpack with
  | notANumber =>
    rw [le_self_iff, unpacked] at definite
    cases definite
  | zero s =>
    rw [unpacked, worthOf_zero] at one_le
    exact absurd one_le (by norm_num)
  | infinity s =>
    cases s with
    | positive => rfl
    | negative =>
      rw [unpacked] at one_le
      exact absurd one_le (by norm_num [worthOf, signed])
  | finite s m e pos =>
    cases s with
    | positive => rfl
    | negative =>
      rw [unpacked] at one_le
      have above := kept_pos (e := e) pos
      exact absurd one_le (by simp only [worthOf, signed]; linarith)

/-! ### Apart -/

theorem compare_swapped (u v : UnpackedFloat) : v.compare u = (u.compare v).map Ordering.swap := by
  cases u with
  | notANumber => cases v <;> rfl
  | infinity s =>
    cases v with
    | notANumber => cases s <;> rfl
    | infinity s' => cases s <;> cases s' <;> rfl
    | zero s' => cases s <;> rfl
    | finite s' => cases s <;> cases s' <;> rfl
  | zero s =>
    cases v with
    | notANumber => rfl
    | infinity s' => cases s' <;> rfl
    | zero s' => rfl
    | finite s' => cases s' <;> rfl
  | finite s m e pos =>
    cases v with
    | notANumber => cases s <;> rfl
    | infinity s' => cases s <;> cases s' <;> rfl
    | zero s' => cases s <;> rfl
    | finite s' m' e' pos' =>
      have reversed : (compare e' e).then (compare m' m) =
          ((compare e e').then (compare m m')).swap := by
        rw [Ordering.swap_then, ← Std.OrientedOrd.eq_swap, ← Std.OrientedOrd.eq_swap]
      cases s <;> cases s'
      · exact congrArg some (congrArg Ordering.swap reversed)
      · rfl
      · rfl
      · exact congrArg some reversed

theorem lt_iff_not_le (hx : x ≤ x) (hy : y ≤ y) : x < y ↔ ¬y ≤ x := by
  rw [le_self_iff] at hx hy
  have total := le_total (place x.toModel.unpack) (place y.toModel.unpack)
  rw [← compare_isLE hx hy, ← compare_isLE hy hx, compare_swapped x.toModel.unpack] at total
  rw [lt_iff, le_iff, compare_swapped x.toModel.unpack]
  generalize x.toModel.unpack.compare y.toModel.unpack = order at total ⊢
  cases order with
  | none => exact absurd total (by decide)
  | some c => cases c <;> decide

theorem lt_iff_worth (hx : x ≤ x) (hy : y ≤ y) : x < y ↔ worth x < worth y := by
  rw [lt_iff_not_le hx hy, le_iff_worth hy hx, not_le]

theorem worth_pack_notANumber : worth ⟨Float32.Model.pack .notANumber⟩ = 0 := rfl

theorem worth_pack_infinity (s : Sign) :
    worth ⟨Float32.Model.pack (.infinity s)⟩ = signed s (2 ^ 128) := by
  cases s <;> rfl

theorem worth_pack_kept (s : Sign) {m : ℕ} {e : ℤ} {pos : 0 < m} (h : Kept m e) :
    worth ⟨Float32.Model.pack (.finite s m e pos)⟩ = signed s (m * 2 ^ e) := by
  rw [worth, unpack_pack h]
  rfl

theorem sub_eq (x y : Float32) : x - y =
    ⟨Float32.Model.pack (UnpackedFloat.sub .binary32 x.toModel.unpack y.toModel.unpack)⟩ := rfl

/-- **A difference turned around is its opposite.** -/
theorem worth_sub_swap (x y : Float32) : worth (y - x) = -worth (x - y) := by
  rw [sub_eq, sub_eq]
  cases unpacked : x.toModel.unpack with
  | notANumber =>
    cases y.toModel.unpack <;>
      simp only [UnpackedFloat.sub, worth_pack_notANumber, neg_zero]
  | infinity s =>
    cases y.toModel.unpack with
    | infinity s' =>
      cases s <;> cases s'
      · exact neg_zero.symm
      · exact (neg_neg _).symm
      · rfl
      · exact neg_zero.symm
    | notANumber => simp only [UnpackedFloat.sub, worth_pack_notANumber, neg_zero]
    | _ => simp only [UnpackedFloat.sub, worth_pack_infinity, signed_neg]
  | zero s =>
    cases unpacked' : y.toModel.unpack with
    | notANumber => simp only [UnpackedFloat.sub, worth_pack_notANumber, neg_zero]
    | infinity s' => simp only [UnpackedFloat.sub, worth_pack_infinity, signed_neg, neg_neg]
    | zero s' =>
      simp only [UnpackedFloat.sub]
      split <;> split <;> simp only [worth_pack_zero, neg_zero]
    | finite s' m' e' pos' =>
      simp only [UnpackedFloat.sub, worth_pack_kept _ (kept_of_unpack unpacked'), signed_neg,
        neg_neg]
  | finite s m e pos =>
    cases unpacked' : y.toModel.unpack with
    | notANumber => simp only [UnpackedFloat.sub, worth_pack_notANumber, neg_zero]
    | infinity s' => simp only [UnpackedFloat.sub, worth_pack_infinity, signed_neg, neg_neg]
    | zero s' =>
      simp only [UnpackedFloat.sub, worth_pack_kept _ (kept_of_unpack unpacked), signed_neg]
    | finite s' m' e' pos' =>
      simp only [UnpackedFloat.sub, min_comm e' e]
      rw [← neg_sub, worth_normalize_neg]

theorem isNaN_sub_swap (u v : UnpackedFloat) : (UnpackedFloat.sub .binary32 u v).isNaN =
    (UnpackedFloat.sub .binary32 v u).isNaN := by
  cases u with
  | notANumber => cases v <;> rfl
  | infinity s =>
    cases v with
    | infinity s' => cases s <;> cases s' <;> rfl
    | _ => rfl
  | zero s =>
    cases v with
    | zero s' => cases s <;> cases s' <;> rfl
    | _ => rfl
  | finite s m e pos =>
    cases v with
    | finite s' m' e' pos' =>
      simp only [UnpackedFloat.sub, isNaN_of_isFinite (isFinite_normalize _ _ _)]
    | _ => rfl

theorem le_self_sub_swap (h : x - y ≤ x - y) : y - x ≤ y - x := by
  rw [le_self_iff] at h ⊢
  rw [sub_eq] at h ⊢
  rw [isNaN_pack_iff] at h ⊢
  rwa [isNaN_sub_swap]

theorem apart_iff : Movement.apart x y = true ↔
    x - y ≤ x - y ∧ worth 0.0001 < |worth (x - y)| := by
  have bound : (0.0001 : Float32) ≤ 0.0001 := by decide
  unfold Movement.apart
  rw [decide_eq_true_iff]
  constructor
  · intro (less : 0.0001 < (x - y).abs)
    have definite := (le_self_of_le (le_of_lt less)).2
    rw [lt_iff_worth bound definite, worth_abs] at less
    exact ⟨le_self_abs_iff.mp definite, less⟩
  · rintro ⟨definite, less⟩
    show 0.0001 < (x - y).abs
    rwa [lt_iff_worth bound (le_self_abs_iff.mpr definite), worth_abs]

theorem apart_swap (h : Movement.apart x y = true) : Movement.apart y x = true := by
  obtain ⟨definite, less⟩ := apart_iff.mp h
  refine apart_iff.mpr ⟨le_self_sub_swap definite, ?_⟩
  rwa [worth_sub_swap, abs_neg]

theorem worth_tenthousandth_nonneg : 0 ≤ worth 0.0001 := by
  rw [← worth_zero, ← le_iff_worth (by decide) (by decide)]
  decide

/-- Numbers that are apart are worth something different. -/
theorem worth_ne_of_apart (h : Movement.apart x y = true) : worth x ≠ worth y := by
  obtain ⟨definite, less⟩ := apart_iff.mp h
  obtain ⟨hx, hy⟩ := le_self_of_add (sub_eq_add x y ▸ definite)
  have nonzero : worth (x - y) ≠ 0 := by
    intro zero
    rw [zero, abs_zero] at less
    exact absurd worth_tenthousandth_nonneg (not_le.mpr less)
  intro same
  apply nonzero
  rcases unpack_eq_of_worth_eq hx (le_self_neg_iff.mp hy) same with unpacked | zero
  · have swapped := worth_sub_swap x y
    rw [sub_eq, sub_eq, unpacked] at swapped
    rw [sub_eq, unpacked]
    linarith
  · have sum := nearest_add (isFinite_of_worth_eq_zero hx zero)
      (isFinite_of_worth_eq_zero hy (by rw [worth_neg, ← same, zero, neg_zero]))
    rw [worth_neg, ← same, zero, neg_zero, add_zero, ← worth_zero, ← sub_eq_add] at sum
    exact sum.worth_eq

theorem le_self_of_apart (h : Movement.apart x y = true) : x ≤ x ∧ y ≤ y := by
  have definite := (apart_iff.mp h).1
  rw [sub_eq_add] at definite
  exact (le_self_of_add definite).imp_right le_self_neg_iff.mp

theorem apart_self (x : Float32) : Movement.apart x x = false :=
  Bool.eq_false_iff.mpr fun apart => worth_ne_of_apart apart rfl

theorem apart_comm (x y : Float32) : Movement.apart x y = Movement.apart y x :=
  Bool.eq_iff_iff.mpr ⟨apart_swap, apart_swap⟩

/-- The gap between the two ends, or between one of them and a number. -/
theorem apart_of_unpack_sub {s : Sign} (h : (x - y).toModel.unpack = .infinity s) :
    Movement.apart x y = true := by
  refine apart_iff.mpr ⟨le_self_iff.mpr (by rw [h]; rfl), ?_⟩
  have bound : (0.0001 : Float32).isFinite = true := by decide
  have below := (isFinite_iff_worth (le_self_of_isFinite bound)).mp bound
  rw [show worth (x - y) = signed s (2 ^ 128) by rw [worth, h]; rfl, abs_signed,
    abs_of_pos (by positivity)]
  exact (le_abs_self _).trans_lt below

theorem worth_infinity {s : Sign} (h : x.toModel.unpack = .infinity s) :
    worth x = signed s (2 ^ 128) := by
  rw [worth, h]
  rfl

/-- Only the upper of two numbers can be the upper end, only the lower the lower end. -/
theorem eq_positive_of_worth_lt {s : Sign} (h : y.toModel.unpack = .infinity s)
    (less : worth x < worth y) : s = .positive := by
  cases s with
  | positive => rfl
  | negative =>
    rw [worth_infinity h] at less
    exact absurd (abs_le.mp (abs_worth_le x)).1 (not_le.mpr less)

theorem eq_negative_of_worth_lt {s : Sign} (h : x.toModel.unpack = .infinity s)
    (less : worth x < worth y) : s = .negative := by
  cases s with
  | negative => rfl
  | positive =>
    rw [worth_infinity h] at less
    exact absurd (abs_le.mp (abs_worth_le y)).2 (not_le.mpr less)

/-- **From one number up to another is infinitely far** where one of them is an end. -/
theorem unpack_sub_infinity (hx : x ≤ x) (hy : y ≤ y) (less : worth x < worth y)
    (h : x.isFinite ≠ true ∨ y.isFinite ≠ true) :
    (y - x).toModel.unpack = .infinity .positive := by
  rw [sub_eq_add]
  rcases definite_cases hy with finite_y | ⟨s, unpacked⟩
  · have infinite := h.resolve_right (not_not.mpr finite_y)
    obtain ⟨s, unpacked⟩ := (definite_cases hx).resolve_left infinite
    obtain rfl := eq_negative_of_worth_lt unpacked less
    rw [add_swap]
    exact unpack_add_infinity (by rw [unpack_neg, unpacked]; rfl) finite_y
  · obtain rfl := eq_positive_of_worth_lt unpacked less
    rcases definite_cases hx with finite_x | ⟨s, unpacked'⟩
    · exact unpack_add_infinity unpacked (isFinite_neg finite_x)
    · obtain rfl := eq_negative_of_worth_lt unpacked' less
      show (Float32.Model.pack
        (UnpackedFloat.add .binary32 y.toModel.unpack (-x).toModel.unpack)).unpack = _
      rw [unpack_neg, unpacked, unpacked']
      rfl

theorem worth_sub_self (x : Float32) : worth (x - x) = 0 := by
  have opposite := worth_sub_swap x x
  linarith

/-- **What is apart stays apart further out.** -/
theorem apart_of_le {lo hi : Float32} (h : lo ≤ x) (h' : x ≤ y) (h'' : y ≤ hi)
    (apart : Movement.apart x y = true) : Movement.apart lo hi = true := by
  have definite_lo := (le_self_of_le h).1
  have definite_hi := (le_self_of_le h'').2
  obtain ⟨definite_x, definite_y⟩ := le_self_of_le h'
  by_cases ends : lo.isFinite = true ∧ hi.isFinite = true
  · obtain ⟨finite_lo, finite_hi⟩ := ends
    have finite_x := isFinite_neg (isFinite_of_mem finite_lo finite_hi h (le_trans h' h''))
    have forward : x - x ≤ y - x := by
      rw [sub_eq_add, sub_eq_add]
      exact add_le_add_right h' finite_x
    have wider : y - x ≤ hi - lo := by
      rw [sub_eq_add, sub_eq_add]
      refine le_trans (add_le_add_right h'' finite_x) ?_
      rw [add_swap hi, add_swap hi]
      exact add_le_add_right (neg_le_of_le h) finite_hi
    obtain ⟨definite_gap, definite_span⟩ := le_self_of_le wider
    rw [le_iff_worth (le_self_of_le forward).1 definite_gap, worth_sub_self] at forward
    rw [le_iff_worth definite_gap definite_span] at wider
    have gap := (apart_iff.mp (apart_swap apart)).2
    exact apart_swap (apart_iff.mpr
      ⟨definite_span, gap.trans_le (abs_le_abs_of_nonneg forward wider)⟩)
  · have less : worth lo < worth hi := calc
      worth lo ≤ worth x := (le_iff_worth definite_lo definite_x).mp h
      _ < worth y := ((le_iff_worth definite_x definite_y).mp h').lt_of_ne (worth_ne_of_apart apart)
      _ ≤ worth hi := (le_iff_worth definite_y definite_hi).mp h''
    exact apart_swap (apart_of_unpack_sub
      (unpack_sub_infinity definite_lo definite_hi less (not_and_or.mp ends)))

/-! ### Reducing to one turn -/

theorem worth_turn : worth 360 = 360 := by
  have unpacked : (360 : Float32).toModel.unpack =
      .finite .positive 11796480 (-15) (by decide) := rfl
  rw [worth, unpacked]
  norm_num [worthOf, signed]

/-- Parts come together as the nearest number. -/
theorem exists_nearest_ofParts (p : Parts) :
    ∃ s, Nearest (signed s (p.mantissa * 2 ^ p.exponent)) (ofParts p) := by
  by_cases none : p.mantissa = 0
  · refine ⟨.positive, ?_⟩
    have zero : ofParts p =
        ⟨Float32.Model.pack (.zero (if p.negative then .negative else .positive))⟩ := by
      simp only [ofParts, none, if_true]
    rw [zero, none, Nat.cast_zero, zero_mul]
    exact nearest_zero _
  · refine ⟨if p.negative then .negative else .positive, ?_⟩
    have rounded : ofParts p = ⟨Float32.Model.pack (UnpackedFloat.round .binary32
        (if p.negative then .negative else .positive) p.mantissa p.exponent)⟩ := by
      simp only [ofParts, none, if_false]
    rw [rounded]
    exact nearest_round _ _ (Nat.pos_of_ne_zero none)

/-- What is left of a number after multiples of another is less than that. -/
theorem rem_lt (p q : Parts) (pos : 0 < q.mantissa) :
    ((p.rem q).mantissa : ℚ) * 2 ^ (p.rem q).exponent < q.mantissa * 2 ^ q.exponent := by
  obtain ⟨k, hk⟩ :=
    Int.eq_ofNat_of_zero_le (show 0 ≤ q.exponent - min p.exponent q.exponent by omega)
  have finer : q.exponent - k = min p.exponent q.exponent := by omega
  have less : (p.rem q).mantissa < q.mantissa <<< k := by
    have shifted : 0 < q.mantissa <<< k := by
      rw [Nat.shiftLeft_eq]
      positivity
    simp only [Parts.rem, hk, Int.toNat_natCast]
    exact Nat.mod_lt _ shifted
  have below : ((p.rem q).mantissa : ℚ) < (q.mantissa <<< k : ℕ) := Nat.cast_lt.mpr less
  rw [← shiftLeft_mul q.mantissa (k := k), finer]
  exact mul_lt_mul_of_pos_right below (two_zpow_pos _)

/-- What is left of a number after whole turns is no more than a turn. -/
theorem neg_turn_le_rem (h : rem x 360 ≤ rem x 360) : -360 ≤ rem x 360 := by
  have turn : parts? 360 = some ⟨false, 11796480, -15⟩ := rfl
  unfold rem at h ⊢
  rw [turn] at h ⊢
  cases parts : parts? x with
  | none =>
    rw [parts] at h
    exact absurd h (show ¬indefinite ≤ indefinite by decide)
  | some p =>
    obtain ⟨s, near⟩ := exists_nearest_ofParts (p.rem ⟨false, 11796480, -15⟩)
    have small := rem_lt p ⟨false, 11796480, -15⟩ (by norm_num)
    refine near.ge_of_ge (by decide) ?_
    rw [worth_neg, worth_turn]
    have size : (11796480 : ℕ) * (2 : ℚ) ^ (-15 : ℤ) = 360 := by norm_num
    have magnitude := abs_signed s ((p.rem ⟨false, 11796480, -15⟩).mantissa *
      2 ^ (p.rem ⟨false, 11796480, -15⟩).exponent)
    rw [abs_of_nonneg (by positivity : (0 : ℚ) ≤ (p.rem ⟨false, 11796480, -15⟩).mantissa *
      2 ^ (p.rem ⟨false, 11796480, -15⟩).exponent)] at magnitude
    exact neg_le_of_abs_le (magnitude.trans_le (small.le.trans size.le))

theorem emod_turn_nonneg (h : emod x 360 ≤ emod x 360) : 0 ≤ emod x 360 := by
  unfold emod at h ⊢
  dsimp only at h ⊢
  split at h
  · rename_i negative
    rw [if_pos negative]
    have turned := add_le_add_right (neg_turn_le_rem (le_self_of_le (le_of_lt negative)).1)
      (show (360 : Float32).abs.isFinite = true by decide)
    exact le_trans (by decide) turned
  · rename_i ahead
    rw [if_neg ahead]
    have comparable := (lt_iff_not_le h (by decide)).not.mp ahead
    exact not_not.mp comparable

end Single

instance : Scalar.MonotoneLaws Float32 where
  le_trans _ _ _ := Single.le_trans
  le_of_not_lt _ _ hx hy h := not_not.mp ((Single.lt_iff_not_le hx hy).not.mp h)
  isFinite_of_mem _ _ _ := Single.isFinite_of_mem
  add_comm := Single.add_swap
  mul_comm := Single.mul_swap
  sub_eq_add_neg := Single.sub_eq_add
  add_le_add_right _ _ _ := Single.add_le_add_right
  neg_le_neg _ _ := Single.neg_le_of_le
  mul_le_mul_right _ _ _ := Single.mul_le_mul_right
  mul_le_mul_right_of_nonpos _ _ _ := Single.mul_le_mul_right_of_nonpos
  mul_null _ _ := Single.mul_null
  half_le_half _ _ := Single.half_le_half
  abs_nonneg _ := Single.zero_le_abs
  abs_le _ _ := Single.abs_le_of_mem
  isFinite_neg _ := Single.isFinite_neg
  isFinite_half _ := Single.isFinite_half
  isFinite_mul _ _ := Single.isFinite_mul
  ratio_mem _ _ := Single.ratio_mem
  le_self_of_neg _ := Single.le_self_neg_iff.mp
  le_self_of_add _ _ := Single.le_self_of_add
  le_self_of_mul _ _ := Single.le_self_of_mul
  le_self_of_half _ h := (Single.le_self_of_div h).1
  le_self_of_abs _ := Single.le_self_abs_iff.mp
  apart_self := Single.apart_self
  apart_comm := Single.apart_comm
  le_self_of_apart _ _ := Single.le_self_of_apart
  apart_of_le _ _ _ _ := Single.apart_of_le
  emod_turn_nonneg _ := Single.emod_turn_nonneg

end MovingLight
