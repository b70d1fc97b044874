import Mathlib
import MovingLight.Scalar.Single

/-!
# Single precision — what the machine computes with

The machine unpacks a single into a sign, a mantissa and an exponent, computes, rounds and
packs the result again. What the readings of a scalar have in common is proved of the
unpacked numbers here.

* The parts that whole-number computations read off the bits are those the machine
  computes with (`Single.parts?_eq`).
* Comparing orders all numbers but the indefinite one by their place
  (`Single.compare_isLE`), so it is as good as a linear order on them.
* Rounding never makes a number indefinite (`Single.isNaN_pack`), and makes no number
  infinite that is of the size of a byte: the difference of two bytes is finite
  (`Single.isFinite_sub`).
-/

namespace MovingLight

namespace Single

open Float.Model (UnpackedFloat Format totalExponent)
open Float.Model.UnpackedFloat

/-! ## Parts -/

theorem unpackMantissa_toNat (b : BitVec 32) :
    (@unpackMantissa Format.binary32 b).toNat = b.toNat % leadingBit := by
  simp [unpackMantissa, leadingBit]

theorem unpackExponent_toNat (b : BitVec 32) :
    (@unpackExponent Format.binary32 b).toNat = b.toNat / leadingBit % 256 := by
  simp [unpackExponent, leadingBit, Nat.shiftRight_eq_div_pow]

theorem unpackSign_toNat (b : BitVec 32) :
    (@unpackSign Format.binary32 b).toNat = b.toNat / signBit := by
  have := b.isLt
  simp [unpackSign, signBit, Nat.shiftRight_eq_div_pow]
  omega

theorem sign_eq_negative (b : BitVec 32) :
    (Sign.ofBitVec (@unpackSign Format.binary32 b) == .negative) =
      decide (signBit ≤ b.toNat) := by
  have sign := unpackSign_toNat b
  have lt := b.isLt
  unfold Sign.ofBitVec
  by_cases h : signBit ≤ b.toNat
  · have one : b.toNat / signBit = 1 := by
      unfold signBit at *
      omega
    rw [decide_eq_true h, if_neg (by rw [← BitVec.toNat_inj, sign, one]; decide)]
    rfl
  · have zero : b.toNat / signBit = 0 := Nat.div_eq_of_lt (not_le.mp h)
    rw [decide_eq_false h, if_pos (by rw [← BitVec.toNat_inj, sign, zero]; rfl)]
    rfl

/-- The bit in front of a fraction is its leading bit. -/
theorem append_toNat (m : BitVec 23) : (1#1 ++ m).toNat = m.toNat + leadingBit := by
  rw [BitVec.toNat_append, ← Nat.shiftLeft_add_eq_or_of_lt m.isLt, Nat.add_comm]
  rfl

/-- The parts of a number as the machine unpacks it. -/
def partsOf : UnpackedFloat → Option Parts
  | .finite sign mantissa exponent _ => some ⟨sign == .negative, mantissa, exponent⟩
  | .zero sign => some ⟨sign == .negative, 0, -149⟩
  | .infinity _ => none
  | .notANumber => none

/-- **The parts read off the bits are those the machine computes with.** -/
theorem parts?_eq (x : Float32) : parts? x = partsOf x.toModel.unpack := by
  let b : BitVec 32 := x.toModel.toBits.toBitVec
  have bits : x.toBits.toNat = b.toNat := rfl
  have unpacked : x.toModel.unpack = UnpackedFloat.unpack Format.binary32 b := rfl
  have exponent := unpackExponent_toNat b
  have mantissa := unpackMantissa_toNat b
  have all_ones : @unpackExponent Format.binary32 b = -1#_ ↔
      b.toNat / leadingBit % 256 = 255 := by
    rw [← exponent, ← BitVec.toNat_inj]
    rfl
  have none_set : @unpackExponent Format.binary32 b = 0#_ ↔ b.toNat / leadingBit % 256 = 0 := by
    rw [← exponent, ← BitVec.toNat_inj]
    rfl
  have none_kept : @unpackMantissa Format.binary32 b = 0#_ ↔ b.toNat % leadingBit = 0 := by
    rw [← mantissa, ← BitVec.toNat_inj]
    rfl
  rw [unpacked]
  unfold parts? unpack
  dsimp only
  rw [bits, ← sign_eq_negative]
  by_cases beyond : b.toNat / leadingBit % 256 = 255
  · rw [if_pos beyond, if_pos (all_ones.mpr beyond)]
    split <;> rfl
  rw [if_neg beyond, if_neg (all_ones.not.mpr beyond)]
  by_cases subnormal : b.toNat / leadingBit % 256 = 0
  · rw [if_pos subnormal, if_pos (none_set.mpr subnormal)]
    by_cases zero : b.toNat % leadingBit = 0
    · rw [dif_pos (none_kept.mpr zero), zero]
      rfl
    · rw [dif_neg (none_kept.not.mpr zero), partsOf, mantissa, exponent, subnormal]
      rfl
  · rw [if_neg subnormal, if_neg (none_set.not.mpr subnormal), partsOf, append_toNat,
      exponent, mantissa]
    rfl

theorem mantissa_lt {x : Float32} {p : Parts} (h : parts? x = some p) :
    p.mantissa < 2 ^ 24 := by
  have kept := Nat.mod_lt x.toBits.toNat (show 0 < leadingBit by decide)
  unfold parts? at h
  unfold leadingBit at *
  dsimp only at h
  split at h
  · cases h
  · split at h <;>
    · cases h
      dsimp only
      omega

/-! ## Comparing -/

theorem lt_iff {x y : Float32} :
    x < y ↔ x.toModel.unpack.compare y.toModel.unpack = some .lt := by
  show decide (x.toModel < y.toModel) = true ↔ _
  rw [decide_eq_true_iff]
  show UnpackedFloat.lt x.toModel.unpack y.toModel.unpack = true ↔ _
  rw [UnpackedFloat.lt, beq_iff_eq]

theorem le_iff {x y : Float32} :
    x ≤ y ↔ (x.toModel.unpack.compare y.toModel.unpack).any (·.isLE) = true := by
  show decide (x.toModel ≤ y.toModel) = true ↔ _
  rw [decide_eq_true_iff]
  rfl

theorem unpack_zero : (0 : Float32).toModel.unpack = .zero .positive := rfl

theorem unpack_one : (1 : Float32).toModel.unpack =
    .finite .positive leadingBit (-23) (by decide) := rfl

/-- The place of a number among all others: first by sign and kind, then by exponent, then by
mantissa. -/
def place : UnpackedFloat → ℤ ×ₗ ℤ ×ₗ ℤ
  | .infinity .negative => toLex (-2, toLex (0, 0))
  | .finite .negative m e _ => toLex (-1, toLex (-e, -m))
  | .zero _ => toLex (0, toLex (0, 0))
  | .finite .positive m e _ => toLex (1, toLex (e, m))
  | .infinity .positive => toLex (2, toLex (0, 0))
  | .notANumber => toLex (0, toLex (0, 0))

theorem compare_then_isLE (e e' : Int) (m m' : Nat) :
    ((compare e e').then (compare m m')).isLE = true ↔ e < e' ∨ e = e' ∧ m ≤ m' := by
  rcases lt_trichotomy e e' with h | rfl | h
  · simp [compare_lt_iff_lt.mpr h, h]
  · simp [Nat.isLE_compare]
  · simp [compare_gt_iff_gt.mpr h, h.not_gt, h.ne']

theorem compare_then_isGE (e e' : Int) (m m' : Nat) :
    ((compare e e').then (compare m m')).isGE = true ↔ e' < e ∨ e = e' ∧ m' ≤ m := by
  rcases lt_trichotomy e e' with h | rfl | h
  · simp [compare_lt_iff_lt.mpr h, h.not_gt, h.ne]
  · simp [Nat.isGE_compare]
  · simp [compare_gt_iff_gt.mpr h, h]

/-- **Comparing goes by the place of a number**, unless one of the two is indefinite. -/
theorem compare_isLE {x y : UnpackedFloat} (hx : x.isNaN = false) (hy : y.isNaN = false) :
    (x.compare y).any (·.isLE) = true ↔ place x ≤ place y := by
  cases x with
  | notANumber => cases hx
  | infinity s =>
    cases y with
    | notANumber => cases hy
    | infinity s' => cases s <;> cases s' <;> decide
    | zero s' => cases s <;> simp [UnpackedFloat.compare, place, Prod.Lex.toLex_le_toLex]
    | finite s' =>
      cases s <;> cases s' <;> simp [UnpackedFloat.compare, place, Prod.Lex.toLex_le_toLex]
  | zero s =>
    cases y with
    | notANumber => cases hy
    | infinity s' => cases s' <;> simp [UnpackedFloat.compare, place, Prod.Lex.toLex_le_toLex]
    | zero s' => simp [UnpackedFloat.compare, place]
    | finite s' => cases s' <;> simp [UnpackedFloat.compare, place, Prod.Lex.toLex_le_toLex]
  | finite s =>
    cases y with
    | notANumber => cases hy
    | infinity s' =>
      cases s <;> cases s' <;> simp [UnpackedFloat.compare, place, Prod.Lex.toLex_le_toLex]
    | zero s' => cases s <;> simp [UnpackedFloat.compare, place, Prod.Lex.toLex_le_toLex]
    | finite s' =>
      cases s <;> cases s' <;>
        simp [UnpackedFloat.compare, place, Prod.Lex.toLex_le_toLex, compare_then_isLE,
          compare_then_isGE]

/-- What is comparable is not indefinite. -/
theorem isNaN_of_compare {x y : UnpackedFloat} (h : (x.compare y).any (·.isLE) = true) :
    x.isNaN = false ∧ y.isNaN = false := by
  cases x <;> cases y <;> first | exact ⟨rfl, rfl⟩ | cases h

/-- A number is comparable with itself unless it is indefinite. -/
theorem le_self_iff {x : Float32} : x ≤ x ↔ x.toModel.unpack.isNaN = false := by
  rw [le_iff]
  exact ⟨fun h => (isNaN_of_compare h).1, fun h => (compare_isLE h h).mpr le_rfl⟩

theorem le_of_lt {x y : Float32} (h : x < y) : x ≤ y := by
  rw [lt_iff] at h
  rw [le_iff, h]
  rfl

theorem le_self_of_le {x y : Float32} (h : x ≤ y) : x ≤ x ∧ y ≤ y := by
  rw [le_self_iff, le_self_iff]
  exact isNaN_of_compare (le_iff.mp h)

theorem le_trans {x y z : Float32} (h : x ≤ y) (h' : y ≤ z) : x ≤ z := by
  rw [le_iff] at h h' ⊢
  obtain ⟨nx, ny⟩ := isNaN_of_compare h
  obtain ⟨-, nz⟩ := isNaN_of_compare h'
  rw [compare_isLE nx nz]
  exact ((compare_isLE nx ny).mp h).trans ((compare_isLE ny nz).mp h')

theorem le_of_not_le {x y : Float32} (hx : x ≤ x) (hy : y ≤ y) (h : ¬x ≤ y) : y ≤ x := by
  rw [le_self_iff] at hx hy
  rw [le_iff, compare_isLE hx hy] at h
  rw [le_iff, compare_isLE hy hx]
  exact (not_le.mp h).le

/-! ## Rounding and packing -/

theorem isNaN_of_isFinite {x : UnpackedFloat} (h : x.isFinite = true) : x.isNaN = false := by
  cases x <;> first | rfl | cases h

theorem le_self_of_isFinite {x : Float32} (h : x.isFinite = true) : x ≤ x :=
  le_self_iff.mpr (isNaN_of_isFinite h)

theorem isFinite_roundWithAccuracy (s : Sign) (m : Nat) (e : Int) (a : Accuracy) :
    (roundWithAccuracy .binary32 s m e a).isFinite = true := by
  unfold roundWithAccuracy
  dsimp only
  split <;> rfl

theorem isFinite_normalize (m : Int) (e : Int) (s : Sign) :
    (UnpackedFloat.normalize .binary32 m e s).isFinite = true := by
  unfold UnpackedFloat.normalize
  split
  · exact isFinite_roundWithAccuracy _ _ _ _
  · rfl
  · exact isFinite_roundWithAccuracy _ _ _ _

/-- An exponent that is not all ones is that of a finite number. -/
theorem isFinite_packComponents {s : Sign} {e : BitVec 8} {m : BitVec 23} (h : e ≠ -1#_) :
    (unpack .binary32 (packComponents .binary32 s e m)).isFinite = true := by
  have field : unpackExponent (packComponents .binary32 s e m) ≠ -1#_ := by
    rwa [unpackExponent_packComponents]
  unfold unpack
  dsimp only
  rw [if_neg field]
  split
  · split <;> rfl
  · rfl

/-- The exponent field of a number that does not overflow. -/
theorem ofNat_ne_neg_one {n : Nat} (h : n < 255) : BitVec.ofNat 8 n ≠ -1#_ := by
  rw [Ne, ← BitVec.toNat_inj, BitVec.toNat_ofNat]
  show ¬n % 256 = 255
  omega

/-- **Packing never makes a number indefinite.** -/
theorem isNaN_pack {x : UnpackedFloat} (h : x.isNaN = false) :
    (Float32.Model.pack x).unpack.isNaN = false := by
  show (unpack .binary32 (pack .binary32 x)).isNaN = false
  cases x with
  | notANumber => cases h
  | infinity s => cases s <;> rfl
  | zero s => cases s <;> rfl
  | finite s m e pos =>
    unfold pack
    dsimp only
    split
    · cases s <;> rfl
    · rename_i small
      change ¬256 ≤ (e + 127 + 23).toNat + 1 at small
      have field : BitVec.ofNat 8 (e + 127 + 23).toNat ≠ -1#_ := ofNat_ne_neg_one (by omega)
      split
      · exact isNaN_of_isFinite (isFinite_packComponents field)
      · exact isNaN_of_isFinite (isFinite_packComponents (by decide))

/-- A number whose exponent is not too large stays finite when it is packed. -/
theorem isFinite_pack {s : Sign} {m : Nat} {e : Int} {pos : 0 < m} (h : e ≤ 104) :
    (Float32.Model.pack (.finite s m e pos)).unpack.isFinite = true := by
  show (unpack .binary32 (pack .binary32 (.finite s m e pos))).isFinite = true
  have small : ¬2 ^ 8 ≤ (e + 127 + 23).toNat + 1 := by omega
  have field : BitVec.ofNat 8 (e + 127 + 23).toNat ≠ -1#_ := ofNat_ne_neg_one (by omega)
  unfold pack
  dsimp only
  split
  · exact absurd ‹_› small
  · split
    · exact isFinite_packComponents field
    · exact isFinite_packComponents (by decide)

/-! ## How far rounding moves an exponent -/

theorem roundToNearestEven_le (m : Nat) (a : Accuracy) : a.roundToNearestEven m ≤ m + 1 := by
  unfold Accuracy.roundToNearestEven
  split <;> omega

theorem shiftRight_mantissa_le (em : ExtendedMantissa) (n : Nat) :
    (em >>> n).mantissa ≤ em.mantissa := by
  show (n.repeat ExtendedMantissa.shiftRightOne em).mantissa ≤ em.mantissa
  induction n with
  | zero => exact le_rfl
  | succ n ih => exact (Nat.div_le_self _ 2).trans ih

theorem log2_le {m k : Nat} (h : m < 2 ^ k) : m.log2 ≤ k := by
  rcases Nat.eq_zero_or_pos m with rfl | pos
  · simp
  · exact ((Nat.log2_lt pos.ne').mpr h).le

/-- Shifting makes the mantissa no larger, but for rounding, and the exponent larger by no more than
the digits of the mantissa. -/
theorem shiftToTargetExponent_le {m k : Nat} {e : Int} (a : Accuracy) (h : m < 2 ^ k)
    (least : -149 ≤ e + k) :
    (shiftToTargetExponent .binary32 m e a).1.roundedMantissa ≤ m + 1 ∧
      e ≤ (shiftToTargetExponent .binary32 m e a).2 ∧
      (shiftToTargetExponent .binary32 m e a).2 ≤ e + k := by
  have digits := log2_le h
  unfold shiftToTargetExponent shiftToExponent
  dsimp only
  refine ⟨?_, by omega, ?_⟩
  · refine (roundToNearestEven_le _ _).trans (Nat.add_le_add_right ?_ 1)
    refine (shiftRight_mantissa_le _ _).trans ?_
    unfold ExtendedMantissa.ofMantissaAndAccuracy
    split <;> exact le_rfl
  · have target : Format.binary32.targetExponent (totalExponent m e) ≤ e + k := by
      show max (m.log2 + 1 + e - 24) (-149) ≤ e + k
      omega
    omega

theorem isFinite_pack_roundWithAccuracy (s : Sign) {m k : Nat} {e : Int} (a : Accuracy)
    (h : m < 2 ^ k) (least : -149 ≤ e + k) (most : e + 2 * k + 1 ≤ 104) :
    (Float32.Model.pack (roundWithAccuracy .binary32 s m e a)).unpack.isFinite = true := by
  obtain ⟨mantissa, below, above⟩ := shiftToTargetExponent_le a h least
  have next : (shiftToTargetExponent .binary32 m e a).1.roundedMantissa < 2 ^ (k + 1) := by
    have one := Nat.two_pow_pos k
    rw [Nat.pow_succ]
    omega
  -- rounding may have made one digit more, so the mantissa is shifted a second time
  have final := (shiftToTargetExponent_le (e := (shiftToTargetExponent .binary32 m e a).2) .exact
    next (by push_cast; omega)).2.2
  unfold roundWithAccuracy
  dsimp only
  split
  · cases s <;> rfl
  · refine isFinite_pack ?_
    push_cast at final
    omega

theorem isFinite_pack_round (s : Sign) {m k : Nat} {e : Int} (h : m < 2 ^ k)
    (least : -149 ≤ e + k) (most : e + 2 * k + 24 ≤ 104) :
    (Float32.Model.pack (UnpackedFloat.round .binary32 s m e)).unpack.isFinite = true := by
  have target : m.log2 + e - 23 ≤ Format.binary32.targetExponent (totalExponent m e) := by
    show _ ≤ max (m.log2 + 1 + e - 24) (-149)
    omega
  unfold UnpackedFloat.round decreaseExponent
  dsimp only
  generalize Format.binary32.targetExponent (totalExponent m e) = t at *
  have shifted : m <<< (e - t).toNat < 2 ^ (k + (e - t).toNat) := by
    rw [Nat.shiftLeft_eq, Nat.pow_add]
    exact Nat.mul_lt_mul_of_pos_right h (Nat.two_pow_pos _)
  exact isFinite_pack_roundWithAccuracy s .exact shifted (by push_cast; omega)
    (by push_cast; omega)

theorem isFinite_pack_normalize {m : Int} {k : Nat} {e : Int} (zero : Sign) (h : m.natAbs < 2 ^ k)
    (least : -149 ≤ e + k) (most : e + 2 * k + 24 ≤ 104) :
    (Float32.Model.pack (UnpackedFloat.normalize .binary32 m e zero)).unpack.isFinite = true := by
  unfold UnpackedFloat.normalize
  split
  · exact isFinite_pack_round _ (by omega) least most
  · cases zero <;> rfl
  · exact isFinite_pack_round _ (by omega) least most

/-! ## Bytes -/

/-- **A number is of the size of a byte**: it is a multiple of the grid that single precision has
just below `2⁸`, or of one finer by no more than seven digits. -/
def byteSized : UnpackedFloat → Bool
  | .zero _ => true
  | .finite _ m e _ => m < 2 ^ 24 ∧ -23 ≤ e ∧ e ≤ -16
  | _ => false

/-- Every byte is of the size of a byte, and the next number is not below it. -/
theorem isChain_bytes : ((List.range 257).map fun n : Nat => (n : Float32)).IsChain
    fun x y => byteSized x.toModel.unpack = true ∧ x ≤ y := by
  decide +kernel

theorem byteSized_and_le_succ {n : Nat} (h : n < 256) :
    byteSized (n : Float32).toModel.unpack = true ∧ (n : Float32) ≤ ((n + 1 : Nat) : Float32) := by
  have inside : n + 1 < ((List.range 257).map fun n : Nat => (n : Float32)).length := by
    rw [List.length_map, List.length_range]
    omega
  have step := List.isChain_iff_getElem.mp isChain_bytes n inside
  simpa only [List.getElem_map, List.getElem_range] using step

theorem isFinite_of_byteSized {x : UnpackedFloat} (h : byteSized x = true) :
    x.isFinite = true := by
  cases x <;> first | rfl | cases h

theorem isFinite_natCast {n : Nat} (h : n < 256) : (n : Float32).isFinite = true :=
  isFinite_of_byteSized (byteSized_and_le_succ h).1

/-- Bytes are ordered as whole numbers are. -/
theorem natCast_le_natCast {m n : Nat} (h : m ≤ n) (byte : n < 256) :
    (m : Float32) ≤ (n : Float32) := by
  induction n, h using Nat.le_induction with
  | base => exact le_self_of_isFinite (isFinite_natCast byte)
  | succ n _ ih => exact le_trans (ih (by omega)) (byteSized_and_le_succ (by omega)).2

theorem natAbs_apply (s : Sign) (n : Int) : (s.apply n).natAbs = n.natAbs := by
  cases s <;> simp [Sign.apply]

theorem shiftLeft_lt {m : Nat} {e t : Int} (h : m < 2 ^ 24) (close : e ≤ t + 7) :
    m <<< (e - t).toNat < 2 ^ 31 := by
  rw [Nat.shiftLeft_eq]
  calc
    m * 2 ^ (e - t).toNat < 2 ^ 24 * 2 ^ (e - t).toNat :=
      Nat.mul_lt_mul_of_pos_right h (Nat.two_pow_pos _)
    _ ≤ 2 ^ 24 * 2 ^ 7 :=
      Nat.mul_le_mul_left _ (Nat.pow_le_pow_right (by decide) (by omega))
    _ = 2 ^ 31 := rfl

/-- **Differences of numbers of the size of a byte are finite.** -/
theorem isFinite_pack_sub {x y : UnpackedFloat} (hx : byteSized x = true)
    (hy : byteSized y = true) :
    (Float32.Model.pack (UnpackedFloat.sub .binary32 x y)).unpack.isFinite = true := by
  cases x with
  | infinity s => cases hx
  | notANumber => cases hx
  | zero s =>
    cases y with
    | infinity s => cases hy
    | notANumber => cases hy
    | zero s' => cases s <;> cases s' <;> rfl
    | finite s' m e pos =>
      obtain ⟨-, -, top⟩ := of_decide_eq_true hy
      exact isFinite_pack (by omega)
  | finite s m e pos =>
    obtain ⟨small, low, top⟩ := of_decide_eq_true hx
    cases y with
    | infinity s => cases hy
    | notANumber => cases hy
    | zero s' => exact isFinite_pack (by omega)
    | finite s' m' e' pos' =>
      obtain ⟨small', low', top'⟩ := of_decide_eq_true hy
      have left : m <<< (e - min e e').toNat < 2 ^ 31 := shiftLeft_lt small (by omega)
      have right : m' <<< (e' - min e e').toNat < 2 ^ 31 := shiftLeft_lt small' (by omega)
      refine isFinite_pack_normalize (k := 32) .positive ?_ (by omega) (by omega)
      refine (Int.natAbs_sub_le _ _).trans_lt ?_
      rw [natAbs_apply, natAbs_apply, Int.natAbs_natCast, Int.natAbs_natCast]
      omega

theorem isFinite_sub_natCast {m n : Nat} (hm : m < 256) (hn : n < 256) :
    ((m : Float32) - (n : Float32)).isFinite = true :=
  isFinite_pack_sub (byteSized_and_le_succ hm).1 (byteSized_and_le_succ hn).1

/-! ## Sums and products -/

theorem isNaN_mul {x y : UnpackedFloat} (hx : x.isFinite = true) (hy : y.isFinite = true) :
    (UnpackedFloat.mul .binary32 x y).isNaN = false := by
  cases x with
  | infinity s => cases hx
  | notANumber => cases hx
  | zero s =>
    cases y with
    | infinity s => cases hy
    | notANumber => cases hy
    | zero s' => rfl
    | finite s' => rfl
  | finite s =>
    cases y with
    | infinity s => cases hy
    | notANumber => cases hy
    | zero s' => rfl
    | finite s' => exact isNaN_of_isFinite (isFinite_roundWithAccuracy _ _ _ _)

theorem isNaN_add {x y : UnpackedFloat} (hx : x.isFinite = true) (hy : y.isNaN = false) :
    (UnpackedFloat.add .binary32 x y).isNaN = false := by
  cases x with
  | infinity s => cases hx
  | notANumber => cases hx
  | zero s =>
    cases y with
    | infinity s' => rfl
    | notANumber => cases hy
    | zero s' => cases s <;> cases s' <;> rfl
    | finite s' => rfl
  | finite s =>
    cases y with
    | infinity s' => rfl
    | notANumber => cases hy
    | zero s' => rfl
    | finite s' => exact isNaN_of_isFinite (isFinite_normalize _ _ _)

/-- **A product of finite numbers is not indefinite.** -/
theorem le_self_mul {x y : Float32} (hx : x.isFinite = true) (hy : y.isFinite = true) :
    x * y ≤ x * y :=
  le_self_iff.mpr (isNaN_pack (isNaN_mul hx hy))

/-- **A sum is not indefinite** where one of its terms is finite and the other not indefinite. -/
theorem le_self_add {x y : Float32} (hx : x.isFinite = true) (hy : y ≤ y) : x + y ≤ x + y :=
  le_self_iff.mpr (isNaN_pack (isNaN_add hx (le_self_iff.mp hy)))

end Single

end MovingLight
