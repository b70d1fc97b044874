import MovingLight.Proofs.Scalar.Order
import MovingLight.Proofs.Window
import MovingLight.Transition

/-!
# Levels — what both readings say of them

A head fades to nothing along a straight line, and starts from nothing along another.
That it is dark at one end of each is a statement about levels, the numbers from `0` to
`255`: `Scalar.LevelLaws` lists what it takes, and both readings of a scalar have it. A
level less itself is nothing; a line down to nothing gets there; a byte is its own level;
and what is nearer to nothing than half a level is no level at all.

In single precision each of these is about rounding that does not happen. A number the
machine has unpacked is `Single.Kept`: its mantissa and exponent are those it was packed
with, so packing it again loses nothing (`Single.unpack_pack`), and neither does rounding
it from a finer grid (`Single.roundWithAccuracy_kept`). This is all that changing its sign
or multiplying by one does to it. A line that goes down from `x` ends at
`x + (0 - x) * 1`, a sum of two numbers that differ in their sign alone.
-/

namespace MovingLight

/-- **What levels come to.** -/
class Scalar.LevelLaws (α : Type) [Scalar α] : Prop where
  natCast_zero : ((0 : Nat) : α) = 0
  natCast_full : ((255 : Nat) : α) = 255
  abs_zero_lt_half : Scalar.abs (0 : α) < 0.5
  clamp_zero : Scalar.clamp 0 255 (0 : α) = 0
  sub_self : ∀ x : α, 0 ≤ x → x ≤ 255 → x - x = 0
  /-- A line down to nothing ends there. -/
  linear_end : ∀ x : α, 0 ≤ x → x ≤ 255 → (Curve.linear x 0).valueAt 1 = 0
  level_byte : ∀ b : UInt8, Dmx.level (b.toNat : α) = b
  level_faint : ∀ x : α, 0 ≤ x → x ≤ 255 → Scalar.abs (0 - x) < 0.5 → Dmx.level x = 0

theorem Scalar.zero_le_zero {α : Type} [Scalar α] [OrderLaws α] : (0 : α) ≤ 0 :=
  (OrderLaws.le_self_of_le _ _ OrderLaws.zero_le_full).1

theorem Dmx.level_zero {α : Type} [Scalar α] [Scalar.LevelLaws α] : level (0 : α) = 0 := by
  have byte := Scalar.LevelLaws.level_byte (α := α) 0
  rwa [UInt8.toNat_zero, Scalar.LevelLaws.natCast_zero] at byte

/-- A dimmer that is off is off at every time. -/
theorem ChannelValue.valueAt_hold_zero {α : Type} [Scalar α] [Scalar.LevelLaws α] (t : α) :
    (hold 0).valueAt t = 0 := by
  show (((0 : UInt8).toNat : Nat) : α) = 0
  rw [UInt8.toNat_zero, Scalar.LevelLaws.natCast_zero]

/-- Every byte is a level. -/
theorem Scalar.byte_mem {α : Type} [Scalar α] [OrderLaws α] [LevelLaws α] (b : UInt8) :
    (0 : α) ≤ (b.toNat : α) ∧ (b.toNat : α) ≤ 255 := by
  have above : ((0 : UInt8).toNat : α) ≤ (b.toNat : α) := OrderLaws.byte_le_byte 0 b UInt8.zero_le
  have below : (b.toNat : α) ≤ ((255 : UInt8).toNat : α) :=
    OrderLaws.byte_le_byte b 255 (UInt8.le_iff_toNat_le.mpr (Nat.le_of_lt_succ b.toNat_lt))
  constructor
  · rw [← LevelLaws.natCast_zero (α := α)]
    exact above
  · rw [← LevelLaws.natCast_full (α := α)]
    exact below

/-- A level brought among the levels is one still. -/
theorem Scalar.clamp_level {α : Type} [Scalar α] [OrderLaws α] {x : α} (h : 0 ≤ x)
    (h' : x ≤ 255) : 0 ≤ clamp 0 255 x ∧ clamp 0 255 x ≤ 255 := by
  have zero_le_full : (0 : α) ≤ 255 := OrderLaws.zero_le_full
  obtain ⟨zero, full⟩ := OrderLaws.le_self_of_le _ _ zero_le_full
  unfold clamp
  split
  · exact ⟨zero, zero_le_full⟩
  · split
    · exact ⟨zero_le_full, full⟩
    · exact ⟨h, h'⟩

theorem Curve.valueAt_linear_zero {α : Type} [Scalar α] {x y : α} (reached : (0 : α) ≤ 0) :
    (linear x y).valueAt 0 = x := if_pos reached

/-- A line ends the whole way from its start to its end. -/
theorem Curve.valueAt_linear_one {α : Type} [Scalar α] {x y : α} (ahead : ¬(1 : α) ≤ 0)
    (reached : (1 : α) ≤ 1) (clear : ¬Scalar.abs (1 - 0 : α) < 0.000001) :
    (linear x y).valueAt 1 = Scalar.between x y (Scalar.clampUnit ((1 - 0) / (1 - 0))) := by
  show (if (1 : α) ≤ 0 then x else valueAfter 1 ⟨0, x⟩ [⟨1, y⟩]) = _
  rw [if_neg ahead, valueAfter, if_pos reached, if_neg clear]

/-! ## The exact reading -/

/-- Read exactly, a line ends where it is told to. -/
theorem Curve.valueAt_linear_exact [ExactReading] (x y : ℚ) : (linear x y).valueAt 1 = y := by
  have clear : ¬Scalar.abs (1 - 0 : ℚ) < 0.000001 := by
    show ¬|(1 - 0 : ℚ)| < 0.000001
    norm_num
  have whole : Scalar.clampUnit ((1 - 0) / (1 - 0) : ℚ) = 1 := by
    rw [sub_zero, div_one]
    exact Scalar.clamp_of_mem ⟨zero_le_one, le_rfl⟩
  rw [valueAt_linear_one (by norm_num) le_rfl clear, whole]
  show x + (y - x) * 1 = y
  ring

instance [ExactReading] : Scalar.LevelLaws ℚ where
  natCast_zero := Nat.cast_zero
  natCast_full := Nat.cast_ofNat
  abs_zero_lt_half := by
    show |(0 : ℚ)| < 0.5
    norm_num
  clamp_zero := Scalar.clamp_of_mem ⟨le_rfl, by norm_num⟩
  sub_self x _ _ := sub_self x
  linear_end x _ _ := Curve.valueAt_linear_exact x 0
  level_byte b := by
    have byte : (b.toNat : ℚ) ∈ Set.Icc (0 : ℚ) 255 :=
      ⟨Nat.cast_nonneg _, by exact_mod_cast Nat.le_of_lt_succ b.toNat_lt⟩
    have nearest : ((Dmx.level (b.toNat : ℚ)).toNat : ℤ) = ⌊(b.toNat : ℚ) + 1 / 2⌋ :=
      Dmx.level_toNat byte
    have floor : ⌊(b.toNat : ℚ) + 1 / 2⌋ = (b.toNat : ℤ) := by
      rw [Int.floor_eq_iff]
      constructor <;> push_cast <;> linarith
    rw [floor] at nearest
    exact UInt8.toNat_inj.mp (by exact_mod_cast nearest)
  level_faint x h h' faint := by
    have nearest : ((Dmx.level x).toNat : ℤ) = ⌊x + 1 / 2⌋ := Dmx.level_toNat ⟨h, h'⟩
    have small : x < 1 / 2 := by
      have size : |0 - x| < 1 / 2 := by
        refine lt_of_lt_of_eq faint ?_
        norm_num
      rw [zero_sub, abs_neg, abs_of_nonneg h] at size
      exact size
    have floor : ⌊x + 1 / 2⌋ = 0 := by
      rw [Int.floor_eq_iff]
      constructor <;> push_cast <;> linarith
    rw [floor] at nearest
    exact UInt8.toNat_inj.mp (by exact_mod_cast nearest)

/-! ## Numbers as single precision keeps them -/

namespace Single

open Float.Model (UnpackedFloat Format totalExponent)
open Float.Model.UnpackedFloat

/-- **Mantissa and exponent of a number as single precision keeps it**: the mantissa has its leading
bit, unless the exponent is the least. -/
structure Kept (m : Nat) (e : Int) : Prop where
  mantissa : m < 2 ^ 24
  least : -149 ≤ e
  most : e ≤ 104
  normal : 2 ^ 23 ≤ m ∨ e = -149

theorem kept_of_unpack {x : Float32} {s : Sign} {m : Nat} {e : Int} {pos : 0 < m}
    (h : x.toModel.unpack = .finite s m e pos) : Kept m e := by
  have parts : parts? x = some ⟨s == .negative, m, e⟩ := by
    rw [parts?_eq, h]
    rfl
  have small := mantissa_lt parts
  unfold parts? leadingBit at parts
  dsimp only at small parts
  split at parts
  · cases parts
  · split at parts <;>
    · rw [Option.some.injEq, Parts.mk.injEq] at parts
      obtain ⟨-, rfl, rfl⟩ := parts
      constructor <;> omega

/-! ## Packing and unpacking -/

theorem unpackSign_packComponents {spec : Format} {s : Sign} {e : BitVec spec.exponentBits}
    {m : BitVec spec.mantissaBitsWithoutImplicit} :
    unpackSign (packComponents spec s e m) = s.toBitVec := by
  apply BitVec.eq_of_getLsbD_eq
  intro i hi
  obtain rfl : i = 0 := by omega
  simp [unpackSign, packComponents, BitVec.getLsbD_append, BitVec.getElem_append]

theorem ofBitVec_toBitVec (s : Sign) : Sign.ofBitVec s.toBitVec = s := by
  cases s <;> rfl

/-- A mantissa with its leading bit is packed without it, and has it again once unpacked. -/
theorem unpack_normal {s : Sign} {n m : Nat} (hn : 0 < n) (hn' : n < 255) (hm : 2 ^ 23 ≤ m)
    (hm' : m < 2 ^ 24) :
    unpack .binary32 (packComponents .binary32 s (BitVec.ofNat 8 n) (BitVec.ofNat 23 m)) =
      .finite s m (n - 150) (Nat.zero_lt_of_lt hm) := by
  have field : (BitVec.ofNat 8 n).toNat = n := by
    rw [BitVec.toNat_ofNat]
    omega
  have not_zero : BitVec.ofNat 8 n ≠ 0#_ := by
    rw [Ne, ← BitVec.toNat_inj, field]
    exact hn.ne'
  have mantissa : (1#1 ++ BitVec.ofNat 23 m).toNat = m := by
    rw [append_toNat, BitVec.toNat_ofNat]
    unfold leadingBit
    omega
  unfold unpack
  simp only [unpackMantissa_packComponents, unpackExponent_packComponents,
    unpackSign_packComponents, ofBitVec_toBitVec]
  rw [if_neg (ofNat_ne_neg_one hn'), if_neg not_zero]
  simp only [mantissa, field]
  rfl

/-- A mantissa without its leading bit is packed under the exponent zero. -/
theorem unpack_subnormal {s : Sign} {m : Nat} (hm : 0 < m) (hm' : m < 2 ^ 23) :
    unpack .binary32 (packComponents .binary32 s 0#8 (BitVec.ofNat 23 m)) =
      .finite s m (-149) hm := by
  have mantissa : (BitVec.ofNat 23 m).toNat = m := by
    rw [BitVec.toNat_ofNat]
    omega
  have not_zero : BitVec.ofNat 23 m ≠ 0#_ := by
    rw [Ne, ← BitVec.toNat_inj, mantissa]
    exact hm.ne'
  have not_ones : 0#8 ≠ -1#8 := by decide
  unfold unpack
  simp only [unpackMantissa_packComponents, unpackExponent_packComponents,
    unpackSign_packComponents, ofBitVec_toBitVec]
  rw [if_neg not_ones, if_pos trivial, dif_neg not_zero]
  simp only [mantissa]
  rfl

variable {s : Sign} {m : Nat} {e : Int} {pos : 0 < m}

/-- **Packing loses nothing of a number that is kept.** -/
theorem unpack_pack (h : Kept m e) :
    (Float32.Model.pack (.finite s m e pos)).unpack = .finite s m e pos := by
  obtain ⟨mantissa, least, most, normal⟩ := h
  show unpack .binary32 (if 2 ^ 8 ≤ (e + 127 + 23).toNat + 1 then packedInfinity .binary32 s
    else if m.log2 + 1 = 24 then
      packComponents .binary32 s (BitVec.ofNat 8 (e + 127 + 23).toNat) (BitVec.ofNat 23 m)
    else packComponents .binary32 s 0#8 (BitVec.ofNat 23 m)) = _
  rw [if_neg (by omega)]
  by_cases leading : 2 ^ 23 ≤ m
  · have log : m.log2 + 1 = 24 := by
      have above := (Nat.le_log2 pos.ne').mpr leading
      have below := (Nat.log2_lt pos.ne').mpr mantissa
      omega
    rw [if_pos log, unpack_normal (by omega) (by omega) leading mantissa]
    congr 1
    omega
  · have log : m.log2 + 1 ≠ 24 := by
      have below := (Nat.log2_lt pos.ne').mpr (not_le.mp leading)
      omega
    obtain rfl := normal.resolve_left leading
    rw [if_neg log, unpack_subnormal pos (not_le.mp leading)]

/-! ## Rounding what is kept -/

theorem shiftRight_mul_two_pow (m k : Nat) :
    (⟨m * 2 ^ k, false, false⟩ : ExtendedMantissa) >>> k = ⟨m, false, false⟩ := by
  show k.repeat ExtendedMantissa.shiftRightOne _ = _
  induction k generalizing m with
  | zero => simp [Nat.repeat]
  | succ k ih =>
    rw [Nat.repeat, Nat.pow_succ', ← Nat.mul_assoc, ih]
    simp [ExtendedMantissa.shiftRightOne]

theorem log2_mul_two_pow (h : m ≠ 0) (k : Nat) : (m * 2 ^ k).log2 = m.log2 + k := by
  induction k with
  | zero => simp
  | succ k ih =>
    have nonzero : m * 2 ^ k ≠ 0 := Nat.mul_ne_zero h (Nat.two_pow_pos k).ne'
    rw [Nat.pow_succ', Nat.mul_left_comm, Nat.log2_two_mul nonzero, ih, Nat.add_assoc]

theorem shiftToTargetExponent_kept (pos : 0 < m) (h : Kept m e) (k : Nat) :
    shiftToTargetExponent .binary32 (m * 2 ^ k) (e - k) .exact = (⟨m, false, false⟩, e) := by
  obtain ⟨mantissa, least, most, normal⟩ := h
  have below := (Nat.log2_lt pos.ne').mpr mantissa
  have log : (m * 2 ^ k).log2 = m.log2 + k := log2_mul_two_pow pos.ne' k
  have target : Format.binary32.targetExponent (totalExponent (m * 2 ^ k) (e - k)) = e := by
    show max (((m * 2 ^ k).log2 : Int) + 1 + (e - k) - 24) (-149) = e
    rw [log]
    rcases normal with leading | rfl
    · have above := (Nat.le_log2 pos.ne').mpr leading
      omega
    · omega
  have shift : (e - (e - k)).toNat = k := by omega
  unfold shiftToTargetExponent shiftToExponent
  dsimp only
  rw [target, shift]
  refine Prod.ext (shiftRight_mul_two_pow m k) ?_
  show e - k + k = e
  omega

/-- **A number that is kept stays as it is when it is rounded**, from however fine a grid. -/
theorem roundWithAccuracy_kept (h : Kept m e) (k : Nat) :
    roundWithAccuracy .binary32 s (m * 2 ^ k) (e - k) .exact = .finite s m e pos := by
  have first := shiftToTargetExponent_kept pos h k
  have second := shiftToTargetExponent_kept pos h 0
  rw [Nat.pow_zero, Nat.mul_one, Nat.cast_zero, Int.sub_zero] at second
  have rounded : ExtendedMantissa.roundedMantissa ⟨m, false, false⟩ = m := rfl
  simp only [roundWithAccuracy, first, rounded, second]
  rw [dif_neg pos.ne']

/-! ## Sums and products that are exact -/

variable {x y : Float32}

theorem unpack_mul_one (h : x.toModel.unpack = .finite s m e pos) :
    (x * 1).toModel.unpack = .finite s m e pos := by
  have kept : Kept m e := kept_of_unpack h
  have leading : leadingBit = 2 ^ 23 := by decide
  have sign : s * .positive = s := by cases s <;> rfl
  have exponent : e + -23 = e - (23 : Nat) := by omega
  have product : (x * 1).toModel = Float32.Model.pack
      (UnpackedFloat.mul .binary32 x.toModel.unpack (1 : Float32).toModel.unpack) := rfl
  rw [product, h, unpack_one, UnpackedFloat.mul, sign, leading, exponent]
  have exactly : roundWithAccuracy .binary32 s (m * 2 ^ 23) (e - (23 : Nat)) .exact =
      .finite s m e pos := roundWithAccuracy_kept kept 23
  rw [exactly]
  exact unpack_pack kept

theorem unpack_zero_sub (h : x.toModel.unpack = .finite s m e pos) :
    (0 - x).toModel.unpack = .finite (-s) m e pos := by
  have difference : (0 - x).toModel = Float32.Model.pack
      (UnpackedFloat.sub .binary32 (0 : Float32).toModel.unpack x.toModel.unpack) := rfl
  rw [difference, h, unpack_zero]
  exact unpack_pack (kept_of_unpack h)

theorem unpack_abs (h : x.toModel.unpack = .finite s m e pos) :
    x.abs.toModel.unpack = .finite .positive m e pos := by
  have size : x.abs.toModel = Float32.Model.pack x.toModel.unpack.abs := rfl
  rw [size, h]
  exact unpack_pack (kept_of_unpack h)

/-- Numbers that differ in their sign alone cancel. -/
theorem add_eq_zero (hx : x.toModel.unpack = .finite s m e pos)
    (hy : y.toModel.unpack = .finite (-s) m e pos) : x + y = 0 := by
  have sum : x + y = ⟨Float32.Model.pack
      (UnpackedFloat.add .binary32 x.toModel.unpack y.toModel.unpack)⟩ := rfl
  have cancels : ∀ n : Nat, s.apply n + (-s).apply n = 0 := by
    intro n
    cases s with
    | negative => exact Int.add_left_neg _
    | positive => exact Int.add_right_neg _
  rw [sum, hx, hy, UnpackedFloat.add]
  dsimp only
  rw [cancels]
  rfl

/-! ## Levels -/

/-- A level is a zero or a finite number: neither infinite nor indefinite. -/
theorem level_cases (h : 0 ≤ x) (h' : x ≤ 255) :
    (∃ s, x.toModel.unpack = .zero s) ∨
      ∃ s m e pos, x.toModel.unpack = .finite s m e pos := by
  rw [le_iff] at h h'
  cases unpacked : x.toModel.unpack with
  | infinity s =>
    rw [unpacked] at h h'
    cases s with
    | negative => cases h
    | positive => cases h'
  | notANumber =>
    rw [unpacked] at h'
    cases h'
  | zero s => exact Or.inl ⟨s, rfl⟩
  | finite s m e pos => exact Or.inr ⟨s, m, e, pos, rfl⟩

theorem sub_self (h : 0 ≤ x) (h' : x ≤ 255) : x - x = 0 := by
  have difference : x - x = ⟨Float32.Model.pack
      (UnpackedFloat.sub .binary32 x.toModel.unpack x.toModel.unpack)⟩ := rfl
  rw [difference]
  rcases level_cases h h' with ⟨s, unpacked⟩ | ⟨s, m, e, pos, unpacked⟩
  · rw [unpacked]
    cases s <;> rfl
  · rw [unpacked, UnpackedFloat.sub]
    dsimp only
    rw [Int.sub_self]
    rfl

/-- **A line down to nothing gets there.** -/
theorem add_zero_sub_mul_one (h : 0 ≤ x) (h' : x ≤ 255) : x + (0 - x) * 1 = 0 := by
  rcases level_cases h h' with ⟨s, unpacked⟩ | ⟨s, m, e, pos, unpacked⟩
  · -- from a zero of either sign the line goes down by a positive zero
    have difference : 0 - x = 0 := by
      show (⟨Float32.Model.pack (UnpackedFloat.sub .binary32 (0 : Float32).toModel.unpack
        x.toModel.unpack)⟩ : Float32) = 0
      rw [unpacked, unpack_zero]
      cases s <;> rfl
    have product : (0 : Float32) * 1 = 0 := by decide
    rw [difference, product]
    show (⟨Float32.Model.pack (UnpackedFloat.add .binary32 x.toModel.unpack
      (0 : Float32).toModel.unpack)⟩ : Float32) = 0
    rw [unpacked, unpack_zero]
    cases s <;> rfl
  · exact add_eq_zero unpacked (unpack_mul_one (unpack_zero_sub unpacked))

theorem linear_end (h : 0 ≤ x) (h' : x ≤ 255) : (Curve.linear x 0).valueAt 1 = 0 := by
  have whole : Scalar.clampUnit ((1 - 0) / (1 - 0) : Float32) = 1 := by decide
  rw [Curve.valueAt_linear_one (by decide) (by decide) (by decide), whole]
  exact add_zero_sub_mul_one h h'

/-! ## The nearest byte -/

theorem nearestWhole_eq_zero (h : e < 0) (small : 2 * m < 2 ^ (-e).toNat) :
    nearestWhole m e = 0 := by
  obtain ⟨k, hk⟩ : ∃ k, (-e).toNat = k + 1 := ⟨(-e).toNat - 1, by omega⟩
  rw [hk, Nat.pow_succ'] at small
  unfold nearestWhole
  rw [if_neg (not_le.mpr h), hk, Nat.add_sub_cancel, Nat.shiftRight_eq_div_pow,
    Nat.one_shiftLeft]
  refine Nat.div_eq_of_lt ?_
  rw [Nat.pow_succ']
  omega

/-- A number of less than one half, of either sign, is rounded to a zero. -/
theorem level_of_parts {p : Parts} (parts : parts? x = some p) (h : p.exponent < 0)
    (small : 2 * p.mantissa < 2 ^ (-p.exponent).toNat) : Dmx.level x = 0 := by
  have rounded : Scalar.round x = ofParts ⟨p.negative, 0, 0⟩ := by
    show Single.round x = _
    unfold Single.round
    rw [parts]
    dsimp only
    rw [if_neg (not_le.mpr h), nearestWhole_eq_zero h small]
  unfold Dmx.level
  rw [rounded]
  cases p.negative <;> decide

theorem unpack_half : (0.5 : Float32).toModel.unpack =
    .finite .positive leadingBit (-24) (by decide) := rfl

theorem level_faint (h : 0 ≤ x) (h' : x ≤ 255) (faint : (0 - x).abs < 0.5) :
    Dmx.level x = 0 := by
  have parts := parts?_eq x
  rcases level_cases h h' with ⟨s, unpacked⟩ | ⟨s, m, e, pos, unpacked⟩
  · rw [unpacked] at parts
    exact level_of_parts parts (show (-149 : Int) < 0 by decide)
      (show 2 * 0 < 2 ^ 149 by decide)
  · rw [unpacked] at parts
    rw [lt_iff, unpack_abs (unpack_zero_sub unpacked), unpack_half] at faint
    have order : (compare e (-24)).then (compare m leadingBit) = .lt := Option.some.inj faint
    rw [Ordering.then_eq_lt, compare_lt_iff_lt, compare_eq_iff_eq, compare_lt_iff_lt] at order
    have mantissa := (kept_of_unpack unpacked).mantissa
    rcases order with below | ⟨rfl, below⟩
    · refine level_of_parts parts (show e < 0 by omega) ?_
      calc
        2 * m < 2 ^ 25 := by omega
        _ ≤ 2 ^ (-e).toNat := Nat.pow_le_pow_right (by decide) (by omega)
    · unfold leadingBit at below
      refine level_of_parts parts (show (-24 : Int) < 0 by decide) ?_
      show 2 * m < 2 ^ 24
      omega

theorem level_natCast : ∀ n ∈ List.range 256, Dmx.level (n : Float32) = UInt8.ofNat n := by
  decide +kernel

theorem level_byte (b : UInt8) : Dmx.level (b.toNat : Float32) = b := by
  rw [level_natCast b.toNat (List.mem_range.mpr b.toNat_lt), UInt8.ofNat_toNat]

end Single

instance : Scalar.LevelLaws Float32 where
  natCast_zero := by decide
  natCast_full := by decide
  abs_zero_lt_half := by decide
  clamp_zero := by decide
  sub_self _ h h' := Single.sub_self h h'
  linear_end _ h h' := Single.linear_end h h'
  level_byte := Single.level_byte
  level_faint _ h h' faint := Single.level_faint h h' faint

end MovingLight
