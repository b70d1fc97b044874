import Mathlib.Data.Nat.Digits.Defs
import MovingLight.Proofs.Scalar.Portion
import MovingLight.Proofs.Table.Text

/-!
# Decimals — what a printed number reads as

A number is printed with a fixed number of places, and `Text.decimal?` reads such a text as
the rational number it spells. What comes back is the number rounded to its last place, a half
going to the even digit (`Single.decimal?_fixed`); so it is off by half a unit of that place at
most (`Decimal.abs_shown_sub_le`), and of two numbers the greater one is not printed as the
lesser (`Decimal.shown_mono`).

Rounding is a function of the number alone (`Decimal.rounded`): `Decimal.RoundsTo` says what it
has to do, and only one whole number does it. The printer works on a numerator and a denominator
instead, and puts the sign in front; both do what is asked, so both are that function.
-/

namespace MovingLight

/-! ## Rounding to a whole number -/

namespace Decimal

/-- **A whole number is the nearest to another**, and the even one if two are. -/
structure RoundsTo (q : ℚ) (n : ℤ) : Prop where
  near : |n - q| ≤ 1 / 2
  even : |n - q| = 1 / 2 → Even n

variable {q q' : ℚ} {n n' : ℤ}

theorem RoundsTo.neg (h : RoundsTo q n) : RoundsTo (-q) (-n) := by
  have mirrored : |((-n : ℤ) : ℚ) - -q| = |n - q| := by
    rw [Int.cast_neg, ← abs_neg]
    congr 1
    ring
  constructor
  · rw [mirrored]
    exact h.near
  · rw [mirrored]
    exact fun half => (h.even half).neg

/-- **Rounding keeps the order.** Were a number rounded to more than a greater one, both would lie
half way between the same two whole numbers, of which only one is even. -/
theorem RoundsTo.mono (h : RoundsTo q n) (h' : RoundsTo q' n') (le : q ≤ q') : n ≤ n' := by
  by_contra swapped
  have apart : (n' : ℚ) + 1 ≤ n := by exact_mod_cast not_le.mp swapped
  have near := abs_le.mp h.near
  have near' := abs_le.mp h'.near
  have half : |(n : ℚ) - q| = 1 / 2 := by
    rw [abs_of_nonneg] <;> linarith
  have half' : |(n' : ℚ) - q'| = 1 / 2 := by
    rw [abs_of_nonpos] <;> linarith
  have next : n = n' + 1 := by
    have cast : (n : ℚ) = n' + 1 := by linarith
    exact_mod_cast cast
  have odd := (h'.even half').add_one
  rw [← next] at odd
  exact Int.not_even_iff_odd.mpr odd (h.even half)

theorem RoundsTo.unique (h : RoundsTo q n) (h' : RoundsTo q n') : n = n' :=
  le_antisymm (h.mono h' le_rfl) (h'.mono h le_rfl)

/-- The whole number nearest to a number, a half going to the even one. -/
def rounded (q : ℚ) : ℤ :=
  if Int.fract q < 1 / 2 ∨ Int.fract q = 1 / 2 ∧ Even ⌊q⌋ then ⌊q⌋ else ⌊q⌋ + 1

/-- A number between two whole ones goes to the one that is nearer, or else even. -/
theorem roundsTo_of_rest {m : ℤ} {rest : ℚ} (nonneg : 0 ≤ rest) (less : rest < 1) :
    RoundsTo (m + rest) (if rest < 1 / 2 ∨ rest = 1 / 2 ∧ Even m then m else m + 1) := by
  split
  · rename_i keep
    have below : rest ≤ 1 / 2 := keep.elim le_of_lt fun half => half.1.le
    have off : |(m : ℚ) - (m + rest)| = rest := by
      rw [sub_add_cancel_left, abs_neg, abs_of_nonneg nonneg]
    refine ⟨off.trans_le below, fun half => ?_⟩
    rw [off] at half
    exact keep.elim (fun less => absurd half less.ne) And.right
  · rename_i up
    rw [not_or, not_lt, not_and] at up
    have off : |((m + 1 : ℤ) : ℚ) - (m + rest)| = 1 - rest := by
      rw [Int.cast_add, Int.cast_one, add_sub_add_left_eq_sub, abs_of_pos (sub_pos.mpr less)]
    refine ⟨by rw [off]; linarith [up.1], fun half => ?_⟩
    rw [off] at half
    exact (Int.not_even_iff_odd.mp (up.2 (by linarith))).add_one

theorem rounded_roundsTo (q : ℚ) : RoundsTo q (rounded q) := by
  have split : RoundsTo (⌊q⌋ + Int.fract q) (rounded q) :=
    roundsTo_of_rest (Int.fract_nonneg q) (Int.fract_lt_one q)
  rwa [Int.floor_add_fract] at split

theorem RoundsTo.eq_rounded (h : RoundsTo q n) : n = rounded q := h.unique (rounded_roundsTo q)

theorem rounded_neg (q : ℚ) : rounded (-q) = -rounded q :=
  (rounded_roundsTo q).neg.eq_rounded.symm

/-- **The printer rounds as it should**, by the remainder of a division. -/
theorem nearest_eq_rounded (num : ℕ) {den : ℕ} (pos : 0 < den) :
    (nearest num den : ℤ) = rounded (num / den) := by
  have positive : (0 : ℚ) < den := Nat.cast_pos.mpr pos
  have rest_lt : ((num % den : ℕ) : ℚ) / den < 1 := by
    rw [div_lt_one positive]
    exact_mod_cast Nat.mod_lt num pos
  have whole : (num : ℚ) / den = ((num / den : ℕ) : ℤ) + ((num % den : ℕ) : ℚ) / den := by
    rw [Int.cast_natCast, ← mul_div_cancel_right₀ ((num / den : ℕ) : ℚ) positive.ne', ← add_div]
    congr 1
    exact_mod_cast (Nat.div_add_mod' num den).symm
  have less : 2 * (num % den) < den ↔ ((num % den : ℕ) : ℚ) / den < 1 / 2 := by
    rw [div_lt_div_iff₀ positive two_pos, one_mul, mul_comm]
    exact_mod_cast Iff.rfl
  have half : 2 * (num % den) = den ↔ ((num % den : ℕ) : ℚ) / den = 1 / 2 := by
    rw [div_eq_div_iff positive.ne' two_ne_zero, one_mul, mul_comm]
    exact_mod_cast Iff.rfl
  have even : num / den % 2 = 0 ↔ Even ((num / den : ℕ) : ℤ) := by
    rw [Int.even_coe_nat, Nat.even_iff]
  have rounds := roundsTo_of_rest (m := ((num / den : ℕ) : ℤ))
    (div_nonneg (Nat.cast_nonneg (num % den)) positive.le) rest_lt
  rw [← whole] at rounds
  rw [← rounds.eq_rounded]
  simp only [nearest, less, half, even, Nat.cast_ite, Nat.cast_add, Nat.cast_one]

/-- A number as its text shows it: rounded to so many places. -/
def shown (places : ℕ) (q : ℚ) : ℚ := rounded (q * 10 ^ places) / 10 ^ places

/-- **What is shown is off by half a unit of the last place at most.** -/
theorem abs_shown_sub_le (places : ℕ) (q : ℚ) : |shown places q - q| ≤ 1 / 2 / 10 ^ places := by
  have unit : (0 : ℚ) < 10 ^ places := by positivity
  have off : shown places q - q = (rounded (q * 10 ^ places) - q * 10 ^ places) / 10 ^ places := by
    rw [sub_div, mul_div_cancel_right₀ q unit.ne']
    rfl
  rw [off, abs_div, abs_of_pos unit]
  gcongr
  exact (rounded_roundsTo _).near

/-- **Numbers are shown in their order.** -/
theorem shown_mono (places : ℕ) : Monotone (shown places) := by
  intro q q' le
  have scaled : q * 10 ^ places ≤ q' * 10 ^ places := by gcongr
  have units := (rounded_roundsTo _).mono (rounded_roundsTo _) scaled
  unfold shown
  gcongr

theorem shown_neg (places : ℕ) (q : ℚ) : shown places (-q) = -shown places q := by
  unfold shown
  rw [neg_mul, rounded_neg, Int.cast_neg, neg_div]

end Decimal

/-! ## The digits of a text -/

namespace Text

theorem digitsValue_eq (acc : ℕ) (cs : List Char) :
    digitsValue acc cs = acc * 10 ^ cs.length + digitsValue 0 cs := by
  induction cs generalizing acc with
  | nil => simp [digitsValue]
  | cons c cs ih =>
    have first (n : ℕ) : digitsValue n (c :: cs) =
        digitsValue (n * 10 + (c.toNat - '0'.toNat)) cs := rfl
    rw [first, first, ih, ih (0 * 10 + _), List.length_cons]
    ring

/-- Digits in front of others count by the power of ten that those behind do not reach. -/
theorem digitsValue_append (cs ds : List Char) :
    digitsValue 0 (cs ++ ds) = digitsValue 0 cs * 10 ^ ds.length + digitsValue 0 ds := by
  rw [← digitsValue_eq]
  exact List.foldl_append

theorem digitsValue_zeros (k : ℕ) : digitsValue 0 (List.replicate k '0') = 0 := by
  induction k with
  | zero => rfl
  | succ k ih => exact ih

theorem digitsValue_toString (n : ℕ) : digitsValue 0 (toString n).toList = n := by
  rw [Nat.toString_eq_repr, Nat.toList_repr, digitsValue_toDigits]

theorem length_toString_le {n places : ℕ} (pos : 0 < places) (less : n < 10 ^ places) :
    (toString n).length ≤ places := by
  rw [Nat.toString_eq_repr]
  exact Nat.repr_length n places pos less

end Text

namespace Decimal

theorem length_lastDigits {places : ℕ} (pos : 0 < places) (n : ℕ) :
    (lastDigits places n).toList.length = places := by
  have short := Text.length_toString_le pos (Nat.mod_lt n (Nat.pow_pos (n := places) (by decide)))
  rw [toList_lastDigits, List.length_append, List.length_replicate, String.length_toList]
  exact Nat.sub_add_cancel short

theorem digitsValue_lastDigits (places n : ℕ) :
    Text.digitsValue 0 (lastDigits places n).toList = n % 10 ^ places := by
  rw [toList_lastDigits, Text.digitsValue_append, Text.digitsValue_zeros, zero_mul, zero_add,
    Text.digitsValue_toString]
  rfl

end Decimal

/-! ## Reading a decimal -/

namespace Text

/-- The number a numeral denotes, if it is finite. -/
def Numeral.value? : Numeral → Option ℚ
  | .finite negative mantissa exponent =>
    some ((if negative then -1 else 1) * mantissa * 10 ^ exponent)
  | .infinite _ => none
  | .indefinite => none

/-- The number a text spells. -/
def decimal? (s : String) : Option ℚ := (numeral? s).bind Numeral.value?

/-- Digits are no letters. -/
theorem toLower_ne_of_isDigit {c : Char} (h : c.isDigit = true) :
    c.toLower ≠ 'i' ∧ c.toLower ≠ 'n' := by
  have same : c.toLower = c := by
    unfold Char.isDigit at h
    rw [Bool.and_eq_true, decide_eq_true_eq, decide_eq_true_eq] at h
    -- the last digit comes before the first capital letter
    unfold Char.toLower
    rw [dif_neg fun upper => absurd (UInt32.le_trans upper.1 h.2) (by decide)]
  rw [same]
  constructor <;> rintro rfl <;> cases h

/-- Digits are none of the words that are numerals. -/
theorem not_word {whole : List Char} (some_digit : whole ≠ [])
    (digits : ∀ c ∈ whole, c.isDigit = true) (rest : List Char) :
    ¬((whole ++ rest).map Char.toLower = "inf".toList ∨
        (whole ++ rest).map Char.toLower = "infinity".toList) ∧
      (whole ++ rest).map Char.toLower ≠ "nan".toList := by
  obtain ⟨c, cs, rfl⟩ := List.exists_cons_of_ne_nil some_digit
  obtain ⟨not_i, not_n⟩ := toLower_ne_of_isDigit (digits c List.mem_cons_self)
  rw [List.cons_append, List.map_cons]
  refine ⟨?_, fun nan => not_n (List.cons.inj nan).1⟩
  rintro (inf | infinity)
  · exact not_i (List.cons.inj inf).1
  · exact not_i (List.cons.inj infinity).1

/-- Digits with a point among them are a numeral. -/
theorem magnitude?_point (negative : Bool) {whole places : List Char} (some_digit : whole ≠ [])
    (digits : ∀ c ∈ whole, c.isDigit = true) (digits' : ∀ c ∈ places, c.isDigit = true) :
    magnitude? negative (whole ++ '.' :: places) =
      some (.finite negative (digitsValue 0 (whole ++ places)) (-places.length)) := by
  obtain ⟨not_infinite, definite⟩ := not_word some_digit digits ('.' :: places)
  have point : ¬Char.isDigit '.' = true := by decide
  have whole_taken : (whole ++ '.' :: places).takeWhile Char.isDigit = whole := by
    rw [List.takeWhile_append_of_pos digits, List.takeWhile_cons_of_neg point, List.append_nil]
  have whole_dropped : (whole ++ '.' :: places).dropWhile Char.isDigit = '.' :: places := by
    rw [List.dropWhile_append_of_pos digits, List.dropWhile_cons_of_neg point]
  have places_taken : places.takeWhile Char.isDigit = places := List.takeWhile_eq_self_iff.mpr digits'
  have places_dropped : places.dropWhile Char.isDigit = [] := List.dropWhile_eq_nil_iff.mpr digits'
  have given : (whole.isEmpty && places.isEmpty) = false := by
    rw [List.isEmpty_eq_false_iff.mpr some_digit, Bool.false_and]
  unfold magnitude?
  dsimp only
  rw [if_neg not_infinite, if_neg definite, whole_taken, whole_dropped]
  simp only [places_taken, places_dropped, given]
  simp [exponent?]

/-- A digit is not taken for a sign. -/
theorem numeral?_of_isDigit {s : String} {c : Char} {cs : List Char} (h : s.toList = c :: cs)
    (digit : c.isDigit = true) : numeral? s = magnitude? false (c :: cs) := by
  unfold numeral?
  rw [h]
  split
  · rename_i minus
    obtain ⟨rfl, -⟩ := List.cons.inj minus
    cases digit
  · rename_i plus
    obtain ⟨rfl, -⟩ := List.cons.inj plus
    cases digit
  · rfl

/-- **A printed number is read as the whole number of its last places.** -/
theorem numeral?_fixedText {places : ℕ} (pos : 0 < places) (negative : Bool) (num den : ℕ) :
    numeral? (Decimal.fixedText places negative num den) =
      some (.finite negative (Decimal.nearest (num * 10 ^ places) den) (-places)) := by
  let units := Decimal.nearest (num * 10 ^ places) den
  have printed : (Decimal.fixedText places negative num den).toList =
      (if negative then ['-'] else []) ++ ((toString (units / 10 ^ places)).toList ++
        '.' :: (Decimal.lastDigits places units).toList) := by
    cases negative <;> simp [Decimal.fixedText, String.toList_append, units]
  have some_digit : (toString (units / 10 ^ places)).toList ≠ [] := by
    rw [Nat.toString_eq_repr, Nat.toList_repr]
    simp
  have last_digits : ∀ c ∈ (Decimal.lastDigits places units).toList, c.isDigit = true :=
    fun _ => Decimal.isDigit_of_mem_lastDigits
  have read := magnitude?_point negative some_digit (fun _ => isDigit_of_mem_toString) last_digits
  rw [Decimal.length_lastDigits pos, digitsValue_append, Decimal.length_lastDigits pos,
    digitsValue_toString, Decimal.digitsValue_lastDigits, Nat.div_add_mod'] at read
  cases negative with
  | true =>
    unfold numeral?
    rw [printed]
    exact read
  | false =>
    obtain ⟨c, cs, first⟩ := List.exists_cons_of_ne_nil some_digit
    have digit : c.isDigit = true :=
      isDigit_of_mem_toString (n := units / 10 ^ places) (first ▸ List.mem_cons_self)
    rw [first] at printed read
    exact (numeral?_of_isDigit printed digit).trans read

theorem decimal?_fixedText {places : ℕ} (pos : 0 < places) (negative : Bool) (num : ℕ) {den : ℕ}
    (den_pos : 0 < den) :
    decimal? (Decimal.fixedText places negative num den) =
      some (Decimal.shown places (if negative then -(num / den) else num / den)) := by
  have scaled : ((num * 10 ^ places : ℕ) : ℚ) / den = num / den * 10 ^ places := by
    push_cast
    ring
  have units := Decimal.nearest_eq_rounded (num * 10 ^ places) den_pos
  rw [scaled] at units
  have magnitude : ((Decimal.nearest (num * 10 ^ places) den : ℕ) : ℚ) * 10 ^ (-places : ℤ) =
      Decimal.shown places (num / den) := by
    rw [Decimal.shown, ← units, Int.cast_natCast, zpow_neg, zpow_natCast, div_eq_mul_inv]
  rw [decimal?, numeral?_fixedText pos, Option.bind_some]
  refine congrArg some ?_
  cases negative with
  | true =>
    rw [if_pos rfl, if_pos rfl, Decimal.shown_neg, ← magnitude]
    ring
  | false =>
    rw [if_neg Bool.false_ne_true, if_neg Bool.false_ne_true, ← magnitude]
    ring

end Text

/-! ## Single precision -/

namespace Single

variable {x : Float32}

/-- A finite number has parts. -/
theorem exists_parts? (h : x.isFinite = true) : ∃ p, parts? x = some p := by
  rw [parts?_eq]
  rcases finite_cases h with ⟨s, unpacked⟩ | ⟨s, m, e, pos, unpacked⟩
  · rw [unpacked]
    exact ⟨_, rfl⟩
  · rw [unpacked]
    exact ⟨_, rfl⟩

/-- A number as a fraction, the power of two above or below the line. -/
theorem shiftLeft_div_shiftLeft (m : ℕ) (e : ℤ) :
    ((m <<< e.toNat : ℕ) : ℚ) / (1 <<< (-e).toNat : ℕ) = m * 2 ^ e := by
  obtain ⟨n, rfl | rfl⟩ := e.eq_nat_or_neg
  · simp [Nat.shiftLeft_eq]
  · simp [Nat.shiftLeft_eq, div_eq_mul_inv]

/-- **The text of a number reads as the number, rounded to its places.** -/
theorem decimal?_fixed {places : ℕ} (pos : 0 < places) (h : x.isFinite = true) :
    Text.decimal? (fixed places x) = some (Decimal.shown places (worth x)) := by
  obtain ⟨p, parts⟩ := exists_parts? h
  have printed : fixed places x = Decimal.fixedText places p.negative
      (p.mantissa <<< p.exponent.toNat) (1 <<< (-p.exponent).toNat) := by
    rw [fixed, parts]
  have den_pos : 0 < 1 <<< (-p.exponent).toNat := by
    rw [Nat.one_shiftLeft]
    positivity
  rw [printed, Text.decimal?_fixedText pos p.negative _ den_pos,
    shiftLeft_div_shiftLeft, worth_of_parts? parts]

end Single

end MovingLight
