import MovingLight.Proofs.Scalar.Level

/-!
# Nearest — what rounding does in single precision

What a single holds is worth a rational number (`Single.worth`), and an infinite one is counted as
the first power of two that is too large. Every operation of the machine is then one sentence: it
gives the number whose worth is nearest to the exact result (`Single.Nearest`). This is proved of
sums, products, quotients and whole numbers (`Single.nearest_add`, `Single.nearest_mul`,
`Single.nearest_div`, `Single.nearest_natCast`), and nothing after it looks at a mantissa again.

All four round in the same place. A mantissa that is shifted to its 24 digits keeps two bits of
what it lost, and these stand for the exact rest (`Single.Stands`), so rounding goes to the
nearest whole mantissa (`Single.Stands.abs_roundedMantissa_sub_le`). That nothing else single
precision has is nearer takes the grids: a number is a multiple of each power of two that is not
too fine for its size (`Single.OnGrid`), and below the first number of a binade, where the
grid is finer, the first number itself is nearer already (`Single.abs_sub_le_of_onGrid`). A mantissa
may round up to one digit too many, which changes how it is written and not what it is worth.

Numbers are ordered as what they are worth is (`Single.le_iff_worth`). What is nearest to a greater
number is therefore no less (`Single.Nearest.le_of_lt`); of equal numbers the two nearest may be two
zeros, or neighbours at the same distance, and say nothing.
-/

namespace MovingLight

namespace Single

open Float.Model (UnpackedFloat Format totalExponent)
open Float.Model.UnpackedFloat

/-! ## Powers of two -/

theorem two_zpow_pos (t : ℤ) : (0 : ℚ) < 2 ^ t := by positivity

theorem two_zpow_add_natCast (t : ℤ) (n : ℕ) : (2 : ℚ) ^ (t + n) = 2 ^ t * 2 ^ n := by
  rw [zpow_add₀ two_ne_zero, zpow_natCast]

theorem two_zpow_le {t u : ℤ} (h : t ≤ u) : (2 : ℚ) ^ t ≤ 2 ^ u :=
  zpow_le_zpow_right₀ one_le_two h

/-! ## What a number is worth -/

/-- A number with a sign. -/
def signed : Sign → ℚ → ℚ
  | .negative, q => -q
  | .positive, q => q

/-- What a number is worth. An infinite one counts as the first power of two that is too large. -/
def worthOf : UnpackedFloat → ℚ
  | .finite s m e _ => signed s (m * 2 ^ e)
  | .infinity s => signed s (2 ^ 128)
  | .zero _ => 0
  | .notANumber => 0

def worth (x : Float32) : ℚ := worthOf x.toModel.unpack

theorem kept_pos {m : ℕ} {e : ℤ} (pos : 0 < m) : (0 : ℚ) < m * 2 ^ e := by positivity

theorem kept_lt_top {m : ℕ} {e : ℤ} (h : Kept m e) : (m : ℚ) * 2 ^ e < 2 ^ 128 := by
  have mantissa : (m : ℚ) < 2 ^ 24 := by exact_mod_cast h.mantissa
  calc
    (m : ℚ) * 2 ^ e < 2 ^ 24 * 2 ^ e := mul_lt_mul_of_pos_right mantissa (two_zpow_pos e)
    _ ≤ 2 ^ 24 * 2 ^ (104 : ℤ) := by gcongr; exacts [one_le_two, h.most]
    _ = 2 ^ 128 := by norm_num

/-- **A number lies on the grids of single precision**: it is a multiple of every power of two that
is not too fine for its size. -/
def OnGrid (q : ℚ) : Prop :=
  ∀ t : ℤ, -149 ≤ t → (∃ n : ℤ, q = n * 2 ^ t) ∨ -149 < t ∧ |q| < 2 ^ (t + 23)

theorem OnGrid.neg {q : ℚ} (h : OnGrid q) : OnGrid (-q) := by
  intro t ht
  rcases h t ht with ⟨n, rfl⟩ | ⟨above, small⟩
  · exact Or.inl ⟨-n, by push_cast; ring⟩
  · exact Or.inr ⟨above, by rwa [abs_neg]⟩

theorem onGrid_zero : OnGrid 0 := fun _ _ => Or.inl ⟨0, by simp⟩

/-- A mantissa of 24 digits lies on the grids. -/
theorem onGrid_natCast_mul {m : ℕ} {e : ℤ} (small : m < 2 ^ 24) (least : -149 ≤ e) :
    OnGrid (m * 2 ^ e) := by
  intro t ht
  rcases le_or_gt t e with coarse | fine
  · obtain ⟨k, hk⟩ := Int.eq_ofNat_of_zero_le (show 0 ≤ e - t by omega)
    refine Or.inl ⟨m * 2 ^ k, ?_⟩
    rw [show e = t + k by omega, two_zpow_add_natCast]
    push_cast
    ring
  · refine Or.inr ⟨by omega, ?_⟩
    have size : (m : ℚ) < 2 ^ 24 := by exact_mod_cast small
    rw [abs_of_nonneg (by positivity)]
    calc
      (m : ℚ) * 2 ^ e < 2 ^ 24 * 2 ^ e := mul_lt_mul_of_pos_right size (two_zpow_pos e)
      _ = 2 ^ (e + 24) := by rw [mul_comm]; exact (two_zpow_add_natCast e 24).symm
      _ ≤ 2 ^ (t + 23) := two_zpow_le (by omega)

theorem onGrid_top : OnGrid (2 ^ 128) := by
  have top := onGrid_natCast_mul (m := 2 ^ 23) (e := 105) (by norm_num) (by norm_num)
  norm_num at top ⊢
  exact top

theorem OnGrid.signed {q : ℚ} (h : OnGrid q) (s : Sign) : OnGrid (signed s q) := by
  cases s with
  | positive => exact h
  | negative => exact h.neg

/-- Whatever single precision holds lies on its grids. -/
theorem onGrid_worth (x : Float32) : OnGrid (worth x) := by
  unfold worth
  cases unpacked : x.toModel.unpack with
  | notANumber => exact onGrid_zero
  | zero s => exact onGrid_zero
  | infinity s => exact onGrid_top.signed s
  | finite s m e pos =>
    have kept := kept_of_unpack unpacked
    exact (onGrid_natCast_mul kept.mantissa kept.least).signed s

theorem abs_signed (s : Sign) (q : ℚ) : |signed s q| = |q| := by
  cases s with
  | positive => rfl
  | negative => exact abs_neg q

theorem abs_worth_le (x : Float32) : |worth x| ≤ 2 ^ 128 := by
  unfold worth
  cases unpacked : x.toModel.unpack with
  | notANumber => norm_num [worthOf]
  | zero s => norm_num [worthOf]
  | infinity s => norm_num [worthOf, abs_signed]
  | finite s m e pos =>
    rw [worthOf, abs_signed, abs_of_pos (kept_pos pos)]
    exact (kept_lt_top (kept_of_unpack unpacked)).le

/-! ## Digits that are left out -/

/-- **The bits beyond a mantissa stand for what is left of a number**: nothing, less than half a
unit, half a unit or more. -/
def Stands (em : ExtendedMantissa) (q : ℚ) : Prop :=
  match em.roundBit, em.stickyBit with
  | false, false => q = em.mantissa
  | false, true => em.mantissa < q ∧ q < em.mantissa + 1 / 2
  | true, false => q = em.mantissa + 1 / 2
  | true, true => em.mantissa + 1 / 2 < q ∧ q < em.mantissa + 1

theorem Stands.bounds {em : ExtendedMantissa} {q : ℚ} (h : Stands em q) :
    em.mantissa ≤ q ∧ q < em.mantissa + 1 := by
  obtain ⟨m, round, sticky⟩ := em
  cases round <;> cases sticky <;> dsimp only [Stands] at h ⊢ <;> constructor <;> linarith

theorem ofMantissaAndAccuracy_mantissa (m : ℕ) (a : Accuracy) :
    (ExtendedMantissa.ofMantissaAndAccuracy m a).mantissa = m := by
  cases a with
  | exact => rfl
  | inexact half => cases half <;> rfl

/-- A mantissa stands for half the number once it is shifted by a digit. -/
theorem Stands.shiftRightOne {em : ExtendedMantissa} {q : ℚ} (h : Stands em q) :
    Stands em.shiftRightOne (q / 2) := by
  obtain ⟨m, round, sticky⟩ := em
  have halves : (m : ℚ) = 2 * (m / 2 : ℕ) + (m % 2 : ℕ) := by
    exact_mod_cast (Nat.div_add_mod m 2).symm
  rcases Nat.mod_two_eq_zero_or_one m with even | odd
  · rw [even, Nat.cast_zero, add_zero] at halves
    cases round <;> cases sticky <;>
      simp only [Stands, ExtendedMantissa.shiftRightOne, even, halves, bne_self_eq_false,
        Bool.or_false, Bool.or_true] at h ⊢ <;>
      (try constructor) <;> linarith
  · rw [odd, Nat.cast_one] at halves
    have set : (1 != 0) = true := rfl
    cases round <;> cases sticky <;>
      simp only [Stands, ExtendedMantissa.shiftRightOne, odd, halves, set, Bool.or_false,
        Bool.or_true] at h ⊢ <;>
      (try constructor) <;> linarith

theorem Stands.shiftRight {em : ExtendedMantissa} {q : ℚ} (h : Stands em q) (n : ℕ) :
    Stands (em >>> n) (q / 2 ^ n) := by
  show Stands (n.repeat ExtendedMantissa.shiftRightOne em) _
  induction n with
  | zero => simpa [Nat.repeat] using h
  | succ n ih =>
    have next := ih.shiftRightOne
    rwa [div_div, ← pow_succ] at next

/-- **Rounding goes to the nearest whole number.** -/
theorem Stands.abs_roundedMantissa_sub_le {em : ExtendedMantissa} {q : ℚ} (h : Stands em q) :
    |(em.roundedMantissa : ℚ) - q| ≤ 1 / 2 := by
  obtain ⟨m, round, sticky⟩ := em
  have parity : ((m % 2 : ℕ) : ℚ) ≤ 1 := by exact_mod_cast Nat.le_of_lt_succ (Nat.mod_lt m two_pos)
  have parity_nonneg : (0 : ℚ) ≤ (m % 2 : ℕ) := Nat.cast_nonneg _
  rw [abs_le]
  cases round <;> cases sticky <;>
    simp only [Stands, ExtendedMantissa.roundedMantissa, ExtendedMantissa.accuracy,
      Accuracy.roundToNearestEven, Nat.cast_add, Nat.cast_one] at h ⊢ <;>
    constructor <;> linarith

/-! ## The nearest on the grids -/

theorem abs_sub_le_of_half {m : ℕ} {q : ℚ} (close : |(m : ℚ) - q| ≤ 1 / 2) (n : ℤ) :
    |(m : ℚ) - q| ≤ |(n : ℚ) - q| := by
  by_cases same : (m : ℤ) = n
  · rw [← same, Int.cast_natCast]
  · have whole : (1 : ℚ) ≤ |(n : ℚ) - m| := by
      exact_mod_cast Int.one_le_abs (sub_ne_zero.mpr (Ne.symm same))
    have through := abs_sub_le (n : ℚ) q m
    rw [abs_sub_comm q] at through
    linarith

theorem abs_mul_sub_mul (x q : ℚ) (t : ℤ) : |x * 2 ^ t - q * 2 ^ t| = |x - q| * 2 ^ t := by
  rw [← sub_mul, abs_mul, abs_of_pos (two_zpow_pos t)]

/-- **Nothing on the grids is nearer to a number than its rounded mantissa**, where the mantissa has
its leading bit or the exponent is the least. -/
theorem abs_sub_le_of_onGrid {m : ℕ} {q f : ℚ} {t : ℤ} (close : |(m : ℚ) - q| ≤ 1 / 2)
    (normal : 2 ^ 23 ≤ q ∨ t = -149) (least : -149 ≤ t) (hf : OnGrid f) :
    |m * 2 ^ t - q * 2 ^ t| ≤ |f - q * 2 ^ t| := by
  rcases hf t least with ⟨n, rfl⟩ | ⟨above, small⟩
  · rw [abs_mul_sub_mul, abs_mul_sub_mul]
    exact mul_le_mul_of_nonneg_right (abs_sub_le_of_half close n) (two_zpow_pos t).le
  · -- the first number of the binade lies between, and is no nearer than the rounded one
    have leading : 2 ^ 23 ≤ q := normal.resolve_right above.ne'
    have first := abs_sub_le_of_half close (2 ^ 23)
    push_cast at first
    have split : (2 : ℚ) ^ (t + 23) = 2 ^ 23 * 2 ^ t := by
      rw [mul_comm]
      exact two_zpow_add_natCast t 23
    rw [split] at small
    calc
      |m * 2 ^ t - q * 2 ^ t| ≤ |2 ^ 23 - q| * 2 ^ t := by
        rw [abs_mul_sub_mul]
        exact mul_le_mul_of_nonneg_right first (two_zpow_pos t).le
      _ = q * 2 ^ t - 2 ^ 23 * 2 ^ t := by
        rw [abs_of_nonpos (by linarith)]
        ring
      _ ≤ q * 2 ^ t - f := by linarith [le_abs_self f]
      _ ≤ |f - q * 2 ^ t| := by
        rw [abs_sub_comm]
        exact le_abs_self _

/-- **A number is as near as single precision comes** to the one it is to stand for. -/
def Nearest (q : ℚ) (x : Float32) : Prop :=
  x ≤ x ∧ ∀ y : Float32, |worth x - q| ≤ |worth y - q|

/-- The sign does not matter to what is nearest. -/
theorem nearest_signed {s : Sign} {q r : ℚ} {x : Float32} (definite : x ≤ x)
    (hx : worth x = signed s r) (h : ∀ f, OnGrid f → |f| ≤ 2 ^ 128 → |r - q| ≤ |f - q|) :
    Nearest (signed s q) x := by
  refine ⟨definite, fun y => ?_⟩
  rw [hx]
  cases s with
  | positive => exact h _ (onGrid_worth y) (abs_worth_le y)
  | negative =>
    have opposite := h _ (onGrid_worth y).neg ((abs_neg _).trans_le (abs_worth_le y))
    rw [show signed .negative r - signed .negative q = -(r - q) by simp only [signed]; ring,
      show worth y - signed .negative q = -(-worth y - q) by simp only [signed]; ring,
      abs_neg, abs_neg]
    exact opposite

/-! ## Rounding -/

/-- A rounded mantissa under its exponent; one that has become a digit too long is shifted. -/
def written (s : Sign) (m : ℕ) (t : ℤ) : UnpackedFloat :=
  let shifted := shiftToTargetExponent .binary32 m t .exact
  if h : shifted.1.mantissa = 0 then .zero s
  else .finite s shifted.1.mantissa shifted.2 (Nat.pos_of_ne_zero h)

theorem log2_lt_of_lt {m k : ℕ} (h : m < 2 ^ (k + 1)) : m.log2 < k + 1 := by
  rcases Nat.eq_zero_or_pos m with rfl | pos
  · simp
  · exact (Nat.log2_lt pos.ne').mpr h

theorem shiftToTargetExponent_short {m : ℕ} {t : ℤ} (small : m < 2 ^ 24) (least : -149 ≤ t) :
    shiftToTargetExponent .binary32 m t .exact = (⟨m, false, false⟩, t) := by
  have digits := log2_lt_of_lt small
  have target : Format.binary32.targetExponent (totalExponent m t) ≤ t := by
    show max ((m.log2 : ℤ) + 1 + t - 24) (-149) ≤ t
    omega
  have none : (Format.binary32.targetExponent (totalExponent m t) - t).toNat = 0 := by omega
  simp only [shiftToTargetExponent, shiftToExponent, none, Nat.cast_zero, add_zero]
  rfl

theorem written_eq {s : Sign} {m : ℕ} {t : ℤ} (pos : 0 < m) (small : m < 2 ^ 24)
    (least : -149 ≤ t) : written s m t = .finite s m t pos := by
  simp only [written, shiftToTargetExponent_short small least]
  rw [dif_neg pos.ne']

theorem written_zero (s : Sign) {t : ℤ} (least : -149 ≤ t) : written s 0 t = .zero s := by
  simp only [written, shiftToTargetExponent_short (m := 0) (by norm_num) least]
  rfl

/-- A mantissa of one digit too many. -/
theorem written_long {s : Sign} {t : ℤ} (least : -149 ≤ t) :
    written s (2 ^ 24) t = .finite s (2 ^ 23) (t + 1) (by norm_num) := by
  have shifted : shiftToTargetExponent .binary32 (2 ^ 24) t .exact =
      (⟨2 ^ 23, false, false⟩, t + 1) := by
    have log : (2 ^ 24).log2 = 24 := Nat.log2_two_pow
    have target : Format.binary32.targetExponent (totalExponent (2 ^ 24) t) = t + 1 := by
      show max (((2 ^ 24).log2 : ℤ) + 1 + t - 24) (-149) = t + 1
      rw [log]
      omega
    have one : (t + 1 - t).toNat = 1 := by omega
    simp only [shiftToTargetExponent, shiftToExponent, target, one]
    rfl
  simp only [written, shifted]
  rfl

/-- Packing keeps what a number is worth, unless it is too large. -/
theorem worth_pack (s : Sign) {m : ℕ} {t : ℤ} (pos : 0 < m) (small : m < 2 ^ 24)
    (least : -149 ≤ t) (normal : 2 ^ 23 ≤ m ∨ t = -149) :
    worth ⟨Float32.Model.pack (.finite s m t pos)⟩ = signed s (min (m * 2 ^ t) (2 ^ 128)) := by
  rcases le_or_gt t 104 with fits | beyond
  · have kept : Kept m t := ⟨small, least, fits, normal⟩
    rw [worth, unpack_pack kept, worthOf, min_eq_left (kept_lt_top kept).le]
  · have unpacked : (Float32.Model.pack (.finite s m t pos)).unpack = .infinity s := by
      show unpack .binary32 (if 2 ^ 8 ≤ (t + 127 + 23).toNat + 1 then packedInfinity .binary32 s
        else _) = _
      rw [if_pos (by omega)]
      cases s <;> rfl
    have large : (2 ^ 128 : ℚ) ≤ m * 2 ^ t := by
      have leading : (2 : ℚ) ^ 23 ≤ m := by exact_mod_cast normal.resolve_right (by omega)
      calc
        (2 ^ 128 : ℚ) = 2 ^ 23 * 2 ^ (105 : ℤ) := by norm_num
        _ ≤ m * 2 ^ t := mul_le_mul leading (two_zpow_le beyond) (by positivity) (by positivity)
    rw [worth, unpacked, worthOf, min_eq_right large]

/-- A rounded mantissa is packed as it is, or as an infinite number beyond all others. -/
theorem worth_pack_written (s : Sign) {m : ℕ} {t : ℤ} (small : m ≤ 2 ^ 24) (least : -149 ≤ t)
    (normal : 2 ^ 23 ≤ m ∨ t = -149) :
    worth ⟨Float32.Model.pack (written s m t)⟩ = signed s (min (m * 2 ^ t) (2 ^ 128)) := by
  rcases Nat.eq_zero_or_pos m with rfl | pos
  · rw [written_zero s least, Nat.cast_zero, zero_mul, min_eq_left (by positivity)]
    cases s
    · exact neg_zero.symm
    · rfl
  · rcases small.lt_or_eq with short | rfl
    · rw [written_eq pos short least]
      exact worth_pack s pos short least normal
    · have same : ((2 ^ 23 : ℕ) : ℚ) * 2 ^ (t + 1) = ((2 ^ 24 : ℕ) : ℚ) * 2 ^ t := by
        rw [zpow_add₀ two_ne_zero]
        push_cast
        ring
      rw [written_long least, worth_pack s (by norm_num) (by norm_num) (by omega) (Or.inl le_rfl),
        same]

/-- The exponent that single precision gives a number. -/
def target (m : ℕ) (e : ℤ) : ℤ := max (m.log2 + 1 + e - 24) (-149)

/-- Between the first number of a binade and the next, or below the least. -/
theorem mantissa_bounds {m k : ℕ} {e : ℤ} {q : ℚ} (low : m ≤ q) (high : q < m + 1)
    (digits : 0 < m ∨ e ≤ -149) (shift : e + k = target m e) :
    q / 2 ^ k < 2 ^ 24 ∧ (2 ^ 23 ≤ q / 2 ^ k ∨ target m e = -149) := by
  have positive : (0 : ℚ) < 2 ^ k := by positivity
  unfold target at shift ⊢
  constructor
  · rw [div_lt_iff₀ positive, ← pow_add]
    have digits_le : m + 1 ≤ 2 ^ (24 + k) :=
      Nat.lt_log2_self.trans_le (Nat.pow_le_pow_right two_pos (by omega))
    exact high.trans_le (by exact_mod_cast digits_le)
  · rw [le_div_iff₀ positive, ← pow_add]
    rcases eq_or_ne (max ((m.log2 : ℤ) + 1 + e - 24) (-149)) (-149) with least | above
    · exact Or.inr least
    · have pos : m ≠ 0 := by
        rintro rfl
        rw [Nat.log2_zero] at above
        omega
      have leading : 2 ^ (23 + k) ≤ m :=
        (Nat.pow_le_pow_right two_pos (by omega)).trans (Nat.log2_self_le pos)
      have leading_cast : (2 : ℚ) ^ (23 + k) ≤ m := by exact_mod_cast leading
      exact Or.inl (leading_cast.trans low)

theorem roundWithAccuracy_eq_written {s : Sign} {m k : ℕ} {e : ℤ} (a : Accuracy)
    (shift : e + k = target m e) :
    roundWithAccuracy .binary32 s m e a =
      written s (ExtendedMantissa.ofMantissaAndAccuracy m a >>> k).roundedMantissa
        (target m e) := by
  have first : shiftToTargetExponent .binary32 m e a =
      (ExtendedMantissa.ofMantissaAndAccuracy m a >>> k, target m e) := by
    have amount : (Format.binary32.targetExponent (totalExponent m e) - e).toNat = k := by
      show (target m e - e).toNat = k
      omega
    simp only [shiftToTargetExponent, shiftToExponent, amount, shift]
  simp only [roundWithAccuracy, first]
  rfl

/-- Nothing that is not too large is nearer than what is limited to the first that is. -/
theorem abs_min_sub_le {r q f : ℚ} (near : ∀ f, OnGrid f → |r - q| ≤ |f - q|) (hf : OnGrid f)
    (top : |f| ≤ 2 ^ 128) : |min r (2 ^ 128) - q| ≤ |f - q| := by
  rcases le_total r (2 ^ 128) with small | large
  · rw [min_eq_left small]
    exact near f hf
  · rw [min_eq_right large]
    have f_le : f ≤ 2 ^ 128 := (le_abs_self f).trans top
    rcases le_or_gt (2 ^ 128) q with beyond | inside
    · rw [abs_of_nonpos (by linarith), abs_of_nonpos (by linarith)]
      linarith
    · -- below that number nothing is rounded further than up to it
      have nearest := near _ onGrid_top
      rw [abs_of_pos (by linarith), abs_of_pos (by linarith)] at nearest
      have exactly : r = 2 ^ 128 := by linarith
      rw [← exactly]
      exact near f hf

/-- What a number is rounded to does not depend on its sign, and nothing is nearer. -/
theorem exists_worth_roundWithAccuracy {m : ℕ} {e : ℤ} {a : Accuracy} {q : ℚ}
    (stands : Stands (.ofMantissaAndAccuracy m a) q) (digits : 0 < m ∨ e ≤ -149)
    (room : e ≤ target m e) :
    ∃ r, (∀ f, OnGrid f → |f| ≤ 2 ^ 128 → |r - q * 2 ^ e| ≤ |f - q * 2 ^ e|) ∧ ∀ s,
      worth ⟨Float32.Model.pack (roundWithAccuracy .binary32 s m e a)⟩ = signed s r := by
  obtain ⟨low, high⟩ := stands.bounds
  rw [ofMantissaAndAccuracy_mantissa] at low high
  obtain ⟨k, hk⟩ := Int.eq_ofNat_of_zero_le (sub_nonneg.mpr room)
  have shift : e + k = target m e := by omega
  have close := (stands.shiftRight k).abs_roundedMantissa_sub_le
  obtain ⟨below, normal⟩ := mantissa_bounds low high digits shift
  have least : -149 ≤ target m e := le_max_right _ _
  have same : q * 2 ^ e = q / 2 ^ k * 2 ^ target m e := by
    rw [← shift, two_zpow_add_natCast]
    field_simp
  simp only [roundWithAccuracy_eq_written a shift, same]
  generalize (ExtendedMantissa.ofMantissaAndAccuracy m a >>> k).roundedMantissa = M at close ⊢
  generalize q / 2 ^ k = x at close below normal ⊢
  generalize target m e = t at normal least ⊢
  obtain ⟨close_low, close_high⟩ := abs_le.mp close
  have small : M ≤ 2 ^ 24 := by
    have : (M : ℚ) < 2 ^ 24 + 1 := by linarith
    exact Nat.lt_succ_iff.mp (by exact_mod_cast this)
  have leading : 2 ^ 23 ≤ M ∨ t = -149 := by
    refine normal.imp_left fun first => ?_
    have : (2 ^ 23 : ℚ) < M + 1 := by linarith
    exact Nat.lt_succ_iff.mp (by exact_mod_cast this)
  exact ⟨min (M * 2 ^ t) (2 ^ 128),
    fun f => abs_min_sub_le fun f => abs_sub_le_of_onGrid close normal least,
    fun s => worth_pack_written s small least leading⟩

theorem le_self_roundWithAccuracy (s : Sign) (m : ℕ) (e : ℤ) (a : Accuracy) :
    (⟨Float32.Model.pack (roundWithAccuracy .binary32 s m e a)⟩ : Float32) ≤
      ⟨Float32.Model.pack (roundWithAccuracy .binary32 s m e a)⟩ :=
  le_self_iff.mpr (isNaN_pack (isNaN_of_isFinite (isFinite_roundWithAccuracy s m e a)))

/-- **A number is rounded to the nearest**, whichever digits were left out before. -/
theorem nearest_roundWithAccuracy {s : Sign} {m : ℕ} {e : ℤ} {a : Accuracy} {q : ℚ}
    (stands : Stands (.ofMantissaAndAccuracy m a) q) (digits : 0 < m ∨ e ≤ -149)
    (room : e ≤ target m e) :
    Nearest (signed s (q * 2 ^ e)) ⟨Float32.Model.pack (roundWithAccuracy .binary32 s m e a)⟩ := by
  obtain ⟨r, near, worth_eq⟩ := exists_worth_roundWithAccuracy stands digits room
  exact nearest_signed (le_self_roundWithAccuracy s m e a) (worth_eq s) near

theorem nearest_of_worth_eq {q : ℚ} {x : Float32} (definite : x ≤ x) (h : worth x = q) :
    Nearest q x := by
  refine ⟨definite, fun y => ?_⟩
  rw [h, sub_eq_zero.mpr rfl, abs_zero]
  exact abs_nonneg _

theorem worth_pack_zero (s : Sign) : worth ⟨Float32.Model.pack (.zero s)⟩ = 0 := by
  cases s <;> rfl

theorem nearest_zero (s : Sign) : Nearest 0 ⟨Float32.Model.pack (.zero s)⟩ :=
  nearest_of_worth_eq (le_self_iff.mpr (isNaN_pack rfl)) (worth_pack_zero s)

theorem target_shiftLeft {m k : ℕ} (pos : 0 < m) (e : ℤ) :
    target (m <<< k) (e - k) = target m e := by
  unfold target
  rw [Nat.shiftLeft_eq, log2_mul_two_pow pos.ne']
  push_cast
  congr 1
  ring

/-- A number on a grid as fine as need be. -/
theorem shiftLeft_mul (m : ℕ) {k : ℕ} {e : ℤ} : ((m <<< k : ℕ) : ℚ) * 2 ^ (e - k) = m * 2 ^ e := by
  rw [Nat.shiftLeft_eq, zpow_sub₀ two_ne_zero, zpow_natCast]
  push_cast
  field_simp

theorem exists_worth_round {m : ℕ} (e : ℤ) (pos : 0 < m) :
    ∃ r : ℚ, (∀ f, OnGrid f → |f| ≤ 2 ^ 128 → |r - m * 2 ^ e| ≤ |f - m * 2 ^ e|) ∧ ∀ s,
      worth ⟨Float32.Model.pack (UnpackedFloat.round .binary32 s m e)⟩ = signed s r := by
  have room : e - (e - target m e).toNat ≤ target m e := by omega
  show ∃ r, _ ∧ ∀ s, worth ⟨Float32.Model.pack (roundWithAccuracy .binary32 s
    (m <<< (e - target m e).toNat) (e - (e - target m e).toNat) .exact)⟩ = signed s r
  generalize (e - target m e).toNat = k at room ⊢
  have shifted : 0 < m <<< k := by
    rw [Nat.shiftLeft_eq]
    positivity
  rw [← shiftLeft_mul m (k := k)]
  exact exists_worth_roundWithAccuracy rfl (Or.inl shifted) ((target_shiftLeft pos e).symm ▸ room)

theorem nearest_round (s : Sign) {m : ℕ} (e : ℤ) (pos : 0 < m) :
    Nearest (signed s (m * 2 ^ e)) ⟨Float32.Model.pack (UnpackedFloat.round .binary32 s m e)⟩ := by
  obtain ⟨r, near, worth_eq⟩ := exists_worth_round e pos
  exact nearest_signed (le_self_roundWithAccuracy _ _ _ _) (worth_eq s) near

theorem signed_natAbs_of_neg {n : ℤ} (h : n < 0) (q : ℚ) :
    signed .negative (n.natAbs * q) = n * q := by
  have cast : ((n.natAbs : ℤ) : ℚ) = -n := by rw [Int.ofNat_natAbs_of_nonpos h.le, Int.cast_neg]
  rw [Int.cast_natCast] at cast
  rw [signed, cast]
  ring

theorem normalize_of_neg {n : ℤ} (h : n < 0) (e : ℤ) (zero : Sign) :
    UnpackedFloat.normalize .binary32 n e zero =
      UnpackedFloat.round .binary32 .negative n.natAbs e := by
  have magnitude : (-n).toNat = n.natAbs := by omega
  rw [UnpackedFloat.normalize, compare_lt_iff_lt.mpr h, magnitude]

theorem normalize_of_pos {n : ℤ} (h : 0 < n) (e : ℤ) (zero : Sign) :
    UnpackedFloat.normalize .binary32 n e zero =
      UnpackedFloat.round .binary32 .positive n.natAbs e := by
  have magnitude : n.toNat = n.natAbs := by omega
  rw [UnpackedFloat.normalize, compare_gt_iff_gt.mpr h, magnitude]

/-- Numbers of opposite signs are rounded to opposite ones. -/
theorem worth_normalize_neg (n : ℤ) (e : ℤ) (zero : Sign) :
    worth ⟨Float32.Model.pack (UnpackedFloat.normalize .binary32 (-n) e zero)⟩ =
      -worth ⟨Float32.Model.pack (UnpackedFloat.normalize .binary32 n e zero)⟩ := by
  rcases lt_trichotomy n 0 with negative | rfl | positive
  · obtain ⟨r, -, worth_eq⟩ := exists_worth_round e (Int.natAbs_pos.mpr negative.ne)
    rw [normalize_of_neg negative, normalize_of_pos (neg_pos.mpr negative), Int.natAbs_neg,
      worth_eq, worth_eq]
    exact (neg_neg r).symm
  · have nothing : UnpackedFloat.normalize .binary32 0 e zero = .zero zero := rfl
    rw [neg_zero, nothing, worth_pack_zero, neg_zero]
  · obtain ⟨r, -, worth_eq⟩ := exists_worth_round e (Int.natAbs_pos.mpr positive.ne')
    rw [normalize_of_pos positive, normalize_of_neg (neg_lt_zero.mpr positive), Int.natAbs_neg,
      worth_eq, worth_eq]
    rfl

/-- A whole number of units is rounded to the nearest. -/
theorem nearest_normalize (n : ℤ) (e : ℤ) (zero : Sign) :
    Nearest (n * 2 ^ e) ⟨Float32.Model.pack (UnpackedFloat.normalize .binary32 n e zero)⟩ := by
  rcases lt_trichotomy n 0 with negative | rfl | positive
  · rw [normalize_of_neg negative, ← signed_natAbs_of_neg negative]
    exact nearest_round .negative e (Int.natAbs_pos.mpr negative.ne)
  · rw [Int.cast_zero, zero_mul]
    exact nearest_zero zero
  · have magnitude : ((n.natAbs : ℕ) : ℚ) = n := by
      rw [← Int.cast_natCast, Int.natAbs_of_nonneg positive.le]
    rw [normalize_of_pos positive, ← magnitude]
    exact nearest_round .positive e (Int.natAbs_pos.mpr positive.ne')

/-! ## Operations -/

variable {x y : Float32}

theorem signed_mul_signed (s s' : Sign) (p q : ℚ) :
    signed s p * signed s' q = signed (s * s') (p * q) := by
  cases s <;> cases s'
  · exact neg_mul_neg p q
  · exact neg_mul p q
  · exact mul_neg p q
  · rfl

theorem signed_natCast_mul (s : Sign) (m : ℕ) (q : ℚ) :
    signed s (m * q) = (s.apply m : ℤ) * q := by
  cases s <;> simp [signed, Sign.apply]

/-- A number that is neither infinite nor indefinite is a zero or has a mantissa. -/
theorem finite_cases (h : x.isFinite = true) :
    (∃ s, x.toModel.unpack = .zero s) ∨ ∃ s m e pos, x.toModel.unpack = .finite s m e pos := by
  have finite : x.toModel.unpack.isFinite = true := h
  cases unpacked : x.toModel.unpack with
  | infinity s =>
    rw [unpacked] at finite
    cases finite
  | notANumber =>
    rw [unpacked] at finite
    cases finite
  | zero s => exact Or.inl ⟨s, rfl⟩
  | finite s m e pos => exact Or.inr ⟨s, m, e, pos, rfl⟩

theorem mul_eq : x * y =
    ⟨Float32.Model.pack (UnpackedFloat.mul .binary32 x.toModel.unpack y.toModel.unpack)⟩ := rfl

theorem add_eq : x + y =
    ⟨Float32.Model.pack (UnpackedFloat.add .binary32 x.toModel.unpack y.toModel.unpack)⟩ := rfl

theorem div_eq : x / y =
    ⟨Float32.Model.pack (UnpackedFloat.div .binary32 x.toModel.unpack y.toModel.unpack)⟩ := rfl

/-- A mantissa of all its digits is not too short for its exponent, and under the least exponent
none is. -/
theorem le_target {m : ℕ} {e : ℤ} (h : e ≤ -149 ∨ 2 ^ 23 ≤ m) : e ≤ target m e := by
  unfold target
  rcases h with least | leading
  · omega
  · have digits := (Nat.le_log2 (Nat.ne_zero_of_lt leading)).mpr leading
    omega

/-- A product of two mantissas is not too short for its exponent. -/
theorem le_target_mul {m m' : ℕ} {e e' : ℤ} (h : Kept m e) (h' : Kept m' e') (pos : 0 < m)
    (pos' : 0 < m') : e + e' ≤ target (m * m') (e + e') := by
  apply le_target
  by_cases long : 2 ^ 23 ≤ m * m'
  · exact Or.inr long
  · have least : e = -149 :=
      h.normal.resolve_left fun leading => long (leading.trans (Nat.le_mul_of_pos_right m pos'))
    have least' : e' = -149 :=
      h'.normal.resolve_left fun leading => long (leading.trans (Nat.le_mul_of_pos_left m' pos))
    omega

@[simp]
theorem worthOf_zero (s : Sign) : worthOf (.zero s) = 0 := rfl

/-- **A product is the nearest to the product of what its factors are worth.** -/
theorem nearest_mul (hx : x.isFinite = true) (hy : y.isFinite = true) :
    Nearest (worth x * worth y) (x * y) := by
  rw [mul_eq]
  unfold worth
  rcases finite_cases hx with ⟨s, unpacked⟩ | ⟨s, m, e, pos, unpacked⟩
  · rcases finite_cases hy with ⟨s', unpacked'⟩ | ⟨s', m', e', pos', unpacked'⟩ <;>
    · rw [unpacked, unpacked', worthOf_zero, zero_mul]
      exact nearest_zero _
  · rcases finite_cases hy with ⟨s', unpacked'⟩ | ⟨s', m', e', pos', unpacked'⟩
    · rw [unpacked, unpacked', worthOf_zero, mul_zero]
      exact nearest_zero _
    · have exactly : (m : ℚ) * 2 ^ e * (m' * 2 ^ e') = ((m * m' : ℕ) : ℚ) * 2 ^ (e + e') := by
        rw [zpow_add₀ two_ne_zero]
        push_cast
        ring
      rw [unpacked, unpacked', worthOf, worthOf, signed_mul_signed, exactly]
      exact nearest_roundWithAccuracy rfl (Or.inl (Nat.mul_pos pos pos'))
        (le_target_mul (kept_of_unpack unpacked) (kept_of_unpack unpacked') pos pos')

theorem nearest_kept {s : Sign} {m : ℕ} {e : ℤ} {pos : 0 < m} (h : Kept m e) :
    Nearest (signed s (m * 2 ^ e)) ⟨Float32.Model.pack (.finite s m e pos)⟩ := by
  refine nearest_of_worth_eq (le_self_iff.mpr (isNaN_pack rfl)) ?_
  rw [worth, unpack_pack h]
  rfl

/-- A number as a whole number of finer units. -/
theorem signed_eq_apply (s : Sign) (m : ℕ) {e t : ℤ} (h : t ≤ e) :
    signed s (m * 2 ^ e) = (s.apply (m <<< (e - t).toNat : ℕ) : ℤ) * 2 ^ t := by
  have finer : e - (e - t).toNat = t := by omega
  rw [← shiftLeft_mul m (k := (e - t).toNat), finer, signed_natCast_mul]

/-- **A sum is the nearest to the sum of what its terms are worth.** -/
theorem nearest_add (hx : x.isFinite = true) (hy : y.isFinite = true) :
    Nearest (worth x + worth y) (x + y) := by
  rw [add_eq]
  unfold worth
  rcases finite_cases hx with ⟨s, unpacked⟩ | ⟨s, m, e, pos, unpacked⟩
  · rcases finite_cases hy with ⟨s', unpacked'⟩ | ⟨s', m', e', pos', unpacked'⟩
    · rw [unpacked, unpacked', worthOf_zero, worthOf_zero, add_zero]
      cases s <;> cases s' <;> exact nearest_zero _
    · rw [unpacked, unpacked', worthOf_zero, zero_add]
      exact nearest_kept (kept_of_unpack unpacked')
  · rcases finite_cases hy with ⟨s', unpacked'⟩ | ⟨s', m', e', pos', unpacked'⟩
    · rw [unpacked, unpacked', worthOf_zero, add_zero]
      exact nearest_kept (kept_of_unpack unpacked)
    · rw [unpacked, unpacked', worthOf, worthOf, signed_eq_apply s m (min_le_left e e'),
        signed_eq_apply s' m' (min_le_right e e'), ← add_mul, ← Int.cast_add]
      exact nearest_normalize _ _ _

/-- What is left of a quotient of whole numbers. -/
theorem stands_div {n d : ℕ} (pos : 0 < d) :
    Stands (.ofMantissaAndAccuracy (n / d) (accuracyOfFraction (n % d) d)) (n / d) := by
  have positive : (0 : ℚ) < d := Nat.cast_pos.mpr pos
  have parts : (n : ℚ) = d * (n / d : ℕ) + (n % d : ℕ) := by
    exact_mod_cast (Nat.div_add_mod n d).symm
  have split : (n : ℚ) / d = (n / d : ℕ) + ((n % d : ℕ) : ℚ) / d := by
    rw [div_eq_iff positive.ne', add_mul, div_mul_cancel₀ _ positive.ne', mul_comm]
    exact parts
  have rest : ((n % d : ℕ) : ℚ) / d < 1 :=
    (div_lt_one positive).mpr (Nat.cast_lt.mpr (Nat.mod_lt n pos))
  rw [split]
  unfold accuracyOfFraction
  rcases Nat.eq_zero_or_pos (n % d) with none | some
  · rw [if_pos none, none, Nat.cast_zero, zero_div, add_zero]
    rfl
  · have above : 0 < ((n % d : ℕ) : ℚ) / d := div_pos (Nat.cast_pos.mpr some) positive
    rw [if_neg some.ne']
    rcases lt_trichotomy (2 * (n % d)) d with less | half | more
    · have cast : 2 * ((n % d : ℕ) : ℚ) < d := by exact_mod_cast less
      have below : ((n % d : ℕ) : ℚ) / d < 1 / 2 := by
        rw [div_lt_iff₀ positive]
        linarith
      rw [compare_lt_iff_lt.mpr less]
      exact ⟨lt_add_of_pos_right _ above, add_lt_add_right below _⟩
    · have cast : 2 * ((n % d : ℕ) : ℚ) = d := by exact_mod_cast half
      have exactly : ((n % d : ℕ) : ℚ) / d = 1 / 2 := by
        rw [div_eq_iff positive.ne']
        linarith
      rw [compare_eq_iff_eq.mpr half, exactly]
      rfl
    · have cast : (d : ℚ) < 2 * ((n % d : ℕ) : ℚ) := by exact_mod_cast more
      have beyond : 1 / 2 < ((n % d : ℕ) : ℚ) / d := by
        rw [lt_div_iff₀ positive]
        linarith
      rw [compare_gt_iff_gt.mpr more]
      exact ⟨add_lt_add_right beyond _, add_lt_add_right rest _⟩

/-- A quotient is taken on a grid fine enough for all its digits, or for the least of them. -/
theorem long_quotient {m m' k : ℕ} {t : ℤ} (pos : 0 < m) (pos' : 0 < m')
    (fine : t ≤ -149 ∨ m'.log2 + 24 ≤ m.log2 + k) : t ≤ -149 ∨ 2 ^ 23 ≤ (m <<< k) / m' := by
  refine fine.imp_right fun digits => ?_
  rw [Nat.le_div_iff_mul_le pos', Nat.shiftLeft_eq]
  calc
    2 ^ 23 * m' ≤ 2 ^ 23 * 2 ^ (m'.log2 + 1) := Nat.mul_le_mul_left _ Nat.lt_log2_self.le
    _ = 2 ^ (m'.log2 + 24) := by rw [← Nat.pow_add, Nat.add_comm, Nat.add_assoc]
    _ ≤ 2 ^ (m.log2 + k) := Nat.pow_le_pow_right two_pos digits
    _ = 2 ^ m.log2 * 2 ^ k := Nat.pow_add ..
    _ ≤ m * 2 ^ k := Nat.mul_le_mul_right _ (Nat.log2_self_le pos.ne')

theorem signed_div_signed (s s' : Sign) (p q : ℚ) :
    signed s p / signed s' q = signed (s / s') (p / q) := by
  cases s <;> cases s'
  · exact neg_div_neg_eq p q
  · exact neg_div q p
  · exact div_neg p
  · rfl

/-- **A quotient is the nearest to the quotient of what both numbers are worth.** -/
theorem nearest_div (hx : x.isFinite = true) (hy : y.isFinite = true) (nonzero : worth y ≠ 0) :
    Nearest (worth x / worth y) (x / y) := by
  rw [div_eq]
  unfold worth at nonzero ⊢
  rcases finite_cases hy with ⟨s', unpacked'⟩ | ⟨s', m', e', pos', unpacked'⟩
  · rw [unpacked'] at nonzero
    exact absurd rfl nonzero
  rcases finite_cases hx with ⟨s, unpacked⟩ | ⟨s, m, e, pos, unpacked⟩
  · rw [unpacked, unpacked', worthOf_zero, zero_div]
    exact nearest_zero _
  · let t := min (e - e') (max ((m.log2 + 1 + e : ℤ) - (m'.log2 + 1 + e') - 24) (-149))
    obtain ⟨k, hk⟩ := Int.eq_ofNat_of_zero_le (show 0 ≤ e - e' - t by omega)
    have quotient : UnpackedFloat.div .binary32 (.finite s m e pos) (.finite s' m' e' pos') =
        roundWithAccuracy .binary32 (s / s') ((m <<< (e - e' - t).toNat) / m') t
          (accuracyOfFraction ((m <<< (e - e' - t).toNat) % m') m') := rfl
    have long := long_quotient (t := t) (k := k) pos pos' (by omega)
    have exactly : (m : ℚ) * 2 ^ e / (m' * 2 ^ e') = ((m <<< k : ℕ) : ℚ) / m' * 2 ^ t := by
      rw [show e = e' + t + k by omega, two_zpow_add_natCast, zpow_add₀ two_ne_zero,
        Nat.shiftLeft_eq]
      push_cast
      field_simp
    rw [unpacked, unpacked', worthOf, worthOf, signed_div_signed, exactly, quotient, hk,
      Int.toNat_natCast]
    refine nearest_roundWithAccuracy (stands_div pos') ?_ (le_target long)
    exact long.symm.imp_left fun digits => Nat.zero_lt_of_lt digits

theorem worth_one : worth 1 = 1 := by
  rw [worth, unpack_one]
  norm_num [worthOf, signed, leadingBit]

/-- What single precision has is its own nearest. -/
theorem Nearest.worth_eq (h : Nearest (worth y) x) : worth x = worth y := by
  have none := h.2 y
  rw [sub_eq_zero.mpr (rfl : worth y = worth y), abs_zero] at none
  exact sub_eq_zero.mp (abs_nonpos_iff.mp none)

/-- **A whole number is taken as the nearest that single precision has.** -/
theorem nearest_natCast (n : ℕ) : Nearest n (n : Float32) := by
  by_cases short : n < 2 ^ 23 ∧ 0 ≤ 10
  · -- a short number is taken as it is, times one
    have word : (UInt64.ofNat n).toNat = n := by
      rw [UInt64.toNat_ofNat', Nat.mod_eq_of_lt (by omega)]
    let x : Float32 := ⟨Float32.Model.pack (UnpackedFloat.normalize .binary32 n 0 .positive)⟩
    have product : (n : Float32) = x * 1 := by
      show Float32.ofScientific n false 0 = _
      unfold Float32.ofScientific
      rw [dif_pos short]
      show (⟨Float32.Model.pack (UnpackedFloat.normalize .binary32 ((UInt64.ofNat n).toNat : ℤ) 0
        .positive)⟩ : Float32) * Float32.ofBits 0x3F800000 = _
      rw [word]
      rfl
    have taken : Nearest n x := by
      have normalized := nearest_normalize n 0 .positive
      rwa [zpow_zero, mul_one, Int.cast_natCast] at normalized
    have finite : x.isFinite = true :=
      isFinite_pack_normalize (k := 23) .positive (by omega) (by omega) (by omega)
    have times_one := nearest_mul finite (show (1 : Float32).isFinite = true by decide)
    rw [worth_one, mul_one] at times_one
    rw [product]
    exact ⟨times_one.1, fun y => times_one.worth_eq ▸ taken.2 y⟩
  · have pos : 0 < n := by omega
    have long : (n : Float32) = ⟨Float32.Model.pack (roundWithAccuracy .binary32 .positive
        ((n <<< 24) * 10 ^ 0) (-24 + 0) .exact)⟩ := by
      show Float32.ofScientific n false 0 = _
      unfold Float32.ofScientific
      rw [dif_neg short]
      show (⟨Float32.Model.pack (UnpackedFloat.ofScientific .binary32 n 0)⟩ : Float32) = _
      have near : ¬(0 : ℤ) > 2 ^ Format.binary32.exponentBits := by decide
      have far : ¬(0 : ℤ) < -((2 ^ Format.binary32.exponentBits : ℤ) + n.log2) := by
        show ¬(0 : ℤ) < -(2 ^ 8 + n.log2)
        omega
      rw [UnpackedFloat.ofScientific, dif_neg pos.ne', if_neg near, if_neg far, if_pos le_rfl]
      rfl
    have digits : 2 ^ 23 ≤ (n <<< 24) * 10 ^ 0 := by
      rw [Nat.shiftLeft_eq]
      omega
    have exactly : (n : ℚ) = (((n <<< 24) * 10 ^ 0 : ℕ) : ℚ) * 2 ^ (-24 + 0 : ℤ) := by
      rw [Nat.shiftLeft_eq]
      norm_num
      ring
    rw [long, exactly]
    exact nearest_roundWithAccuracy (s := .positive) rfl (Or.inl (by omega))
      (le_target (Or.inr digits))

/-! ## Order -/

theorem kept_lt {m m' : ℕ} {e e' : ℤ} (h : Kept m e) (h' : Kept m' e')
    (before : e < e' ∨ e = e' ∧ m < m') : (m : ℚ) * 2 ^ e < m' * 2 ^ e' := by
  rcases before with lower | ⟨rfl, smaller⟩
  · have mantissa : (m : ℚ) < 2 ^ 24 := by exact_mod_cast h.mantissa
    have leading : (2 ^ 23 : ℚ) ≤ m' := by
      have least := h.least
      exact_mod_cast h'.normal.resolve_right (by omega)
    calc
      (m : ℚ) * 2 ^ e < 2 ^ 24 * 2 ^ e := mul_lt_mul_of_pos_right mantissa (two_zpow_pos e)
      _ = 2 ^ 23 * 2 ^ (e + 1) := by
        rw [zpow_add₀ two_ne_zero]
        ring
      _ ≤ m' * 2 ^ e' := mul_le_mul leading (two_zpow_le lower) (two_zpow_pos _).le (by positivity)
  · exact mul_lt_mul_of_pos_right (Nat.cast_lt.mpr smaller) (two_zpow_pos e)

theorem kept_le_iff {m m' : ℕ} {e e' : ℤ} (h : Kept m e) (h' : Kept m' e') :
    (e < e' ∨ e = e' ∧ m ≤ m') ↔ (m : ℚ) * 2 ^ e ≤ m' * 2 ^ e' := by
  constructor
  · rintro (lower | ⟨rfl, smaller⟩)
    · exact (kept_lt h h' (Or.inl lower)).le
    · exact mul_le_mul_of_nonneg_right (Nat.cast_le.mpr smaller) (two_zpow_pos e).le
  · intro le
    by_contra after
    exact absurd (kept_lt h' h (by omega)) (not_lt.mpr le)

theorem place_finite_le {s s' : Sign} {m m' : ℕ} {e e' : ℤ} {pos : 0 < m} {pos' : 0 < m'}
    (h : Kept m e) (h' : Kept m' e') :
    place (.finite s m e pos) ≤ place (.finite s' m' e' pos') ↔
      signed s (m * 2 ^ e) ≤ signed s' (m' * 2 ^ e') := by
  have above := kept_pos (e := e) pos
  have above' := kept_pos (e := e') pos'
  cases s with
  | positive =>
    cases s' with
    | positive => simpa [place, Prod.Lex.toLex_le_toLex, signed] using kept_le_iff h h'
    | negative =>
      have apart : ¬signed .positive (m * 2 ^ e) ≤ signed .negative (m' * 2 ^ e') := by
        simp only [signed]
        linarith
      simpa [place, Prod.Lex.toLex_le_toLex] using apart
  | negative =>
    cases s' with
    | positive =>
      have apart : signed .negative (m * 2 ^ e) ≤ signed .positive (m' * 2 ^ e') := by
        simp only [signed]
        linarith
      simpa [place, Prod.Lex.toLex_le_toLex] using apart
    | negative =>
      have reversed := kept_le_iff h' h
      simpa [place, Prod.Lex.toLex_le_toLex, signed, eq_comm] using reversed

/-- **Numbers are ordered as what they are worth is**, unless one of the two is indefinite. -/
theorem le_iff_worth (hx : x ≤ x) (hy : y ≤ y) : x ≤ y ↔ worth x ≤ worth y := by
  rw [le_self_iff] at hx hy
  rw [le_iff, compare_isLE hx hy]
  unfold worth
  cases unpacked : x.toModel.unpack with
  | notANumber =>
    rw [unpacked] at hx
    cases hx
  | infinity s =>
    cases unpacked' : y.toModel.unpack with
    | notANumber =>
      rw [unpacked'] at hy
      cases hy
    | infinity s' =>
      cases s <;> cases s' <;> simp [place, Prod.Lex.toLex_le_toLex, worthOf, signed]
    | zero s' =>
      cases s <;> simp [place, Prod.Lex.toLex_le_toLex, worthOf, signed]
    | finite s' m' e' pos' =>
      have above' := kept_pos (e := e') pos'
      have top' := kept_lt_top (kept_of_unpack unpacked')
      cases s <;> cases s' <;> simp [place, Prod.Lex.toLex_le_toLex, worthOf, signed] <;> linarith
  | zero s =>
    cases unpacked' : y.toModel.unpack with
    | notANumber =>
      rw [unpacked'] at hy
      cases hy
    | infinity s' =>
      cases s' <;> simp [place, Prod.Lex.toLex_le_toLex, worthOf, signed]
    | zero s' => simp [place, worthOf]
    | finite s' m' e' pos' =>
      have above' := kept_pos (e := e') pos'
      cases s' <;> simp [place, Prod.Lex.toLex_le_toLex, worthOf, signed] <;> linarith
  | finite s m e pos =>
    have above := kept_pos (e := e) pos
    have kept := kept_of_unpack unpacked
    have top := kept_lt_top kept
    cases unpacked' : y.toModel.unpack with
    | notANumber =>
      rw [unpacked'] at hy
      cases hy
    | infinity s' =>
      cases s <;> cases s' <;> simp [place, Prod.Lex.toLex_le_toLex, worthOf, signed] <;> linarith
    | zero s' =>
      cases s <;> simp [place, Prod.Lex.toLex_le_toLex, worthOf, signed] <;> linarith
    | finite s' m' e' pos' => exact place_finite_le kept (kept_of_unpack unpacked')

section Nearest

variable {q q' : ℚ}

/-- What is nearer to the upper of two numbers lies in the upper half between them. -/
theorem add_le_of_nearer {r r' : ℚ} (below : r' < r) (h : |r - q| ≤ |r' - q|) : r + r' ≤ 2 * q := by
  have squares := sq_le_sq.mpr h
  nlinarith

theorem le_add_of_nearer {r r' : ℚ} (below : r' < r) (h : |r' - q| ≤ |r - q|) : 2 * q ≤ r + r' := by
  have squares := sq_le_sq.mpr h
  nlinarith

/-- **What is nearest to others is ordered as they are.** -/
theorem Nearest.le_of_lt (hx : Nearest q x) (hy : Nearest q' y) (h : q < q') : x ≤ y := by
  rw [le_iff_worth hx.1 hy.1]
  by_contra swapped
  have upper := add_le_of_nearer (not_le.mp swapped) (hx.2 y)
  have lower := le_add_of_nearer (not_le.mp swapped) (hy.2 x)
  linarith

theorem Nearest.le_of_le (hx : Nearest q x) (hy : y ≤ y) (h : q ≤ worth y) : x ≤ y := by
  rw [le_iff_worth hx.1 hy]
  by_contra swapped
  have upper := add_le_of_nearer (not_le.mp swapped) (hx.2 y)
  linarith

theorem Nearest.ge_of_ge (hx : Nearest q x) (hy : y ≤ y) (h : worth y ≤ q) : y ≤ x := by
  rw [le_iff_worth hy hx.1]
  by_contra swapped
  have lower := le_add_of_nearer (not_le.mp swapped) (hx.2 y)
  linarith

/-- What is nearest to a number of single precision is that number, but for the sign of a zero. -/
theorem Nearest.same (h : Nearest (worth y) x) (definite : y ≤ y) : x ≤ y ∧ y ≤ x :=
  ⟨h.le_of_le definite le_rfl, h.ge_of_ge definite le_rfl⟩

end Nearest

/-- Numbers of one place are the same, but for the sign of a zero. -/
theorem eq_of_place_eq {u v : UnpackedFloat} (hu : u.isNaN = false) (hv : v.isNaN = false)
    (h : place u = place v) : u = v ∨ worthOf u = 0 := by
  cases u with
  | notANumber => cases hu
  | zero s => exact Or.inr rfl
  | infinity s =>
    cases v with
    | notANumber => cases hv
    | zero s' => cases s <;> simp [place] at h
    | infinity s' => cases s <;> cases s' <;> simp [place] at h ⊢
    | finite s' => cases s <;> cases s' <;> simp [place] at h
  | finite s m e pos =>
    cases v with
    | notANumber => cases hv
    | zero s' => cases s <;> simp [place] at h
    | infinity s' => cases s <;> cases s' <;> simp [place] at h
    | finite s' =>
      cases s <;> cases s' <;> simp [place] at h ⊢ <;> exact Or.inl ⟨h.2, h.1⟩

/-- Numbers of one worth are the same, but for the sign of a zero. -/
theorem unpack_eq_of_worth_eq (hx : x ≤ x) (hy : y ≤ y) (h : worth x = worth y) :
    x.toModel.unpack = y.toModel.unpack ∨ worth x = 0 := by
  have below := (le_iff_worth hx hy).mpr h.le
  have above := (le_iff_worth hy hx).mpr h.ge
  rw [le_self_iff] at hx hy
  rw [le_iff, compare_isLE hx hy] at below
  rw [le_iff, compare_isLE hy hx] at above
  exact eq_of_place_eq hx hy (below.antisymm above)

end Single

end MovingLight
