import MovingLight.Proofs.Table.Assignment
import MovingLight.Proofs.Table.Decimal

/-!
# Curves — what a player makes of a descriptor

The descriptor of a curve lists its points under one key, a colon between time and level and a
semicolon between points. A player that looks for the key and goes by these marks
(`Curve.read?`) finds every point again, since no number is written with any of them
(`Curve.read?_descriptor`).

What it finds is not the curve itself. A level is divided by 255 in single precision, and both
numbers are rounded to three places. Rounding a time costs half a thousandth; of a level the
division costs so little besides (`Single.abs_worth_level_sub_le`) that the level comes back
within 0.13 (`Effect.curves_read_back`). Times do not change places, though they may come to be
the same.
-/

namespace MovingLight

/-! ## The player -/

/-- A time and a level with a colon between them. -/
def CurvePoint.read? (piece : List Char) : Option (ℚ × ℚ) :=
  match piece.splitOn ':' with
  | [time, level] => do
    return (← Text.decimal? (String.ofList time), ← Text.decimal? (String.ofList level))
  | _ => none

/-- The points a descriptor lists, which is made of entries with bars between them. -/
def Curve.read? (descriptor : String) : Option (List (ℚ × ℚ)) := do
  let values ← (descriptor.toList.splitOn '|').findSome? "Values=".toList.isPrefixOf?
  (values.splitOn ';').mapM CurvePoint.read?

/-! ## Numbers and marks -/

theorem Single.mark_not_mem_fixed {c : Char} (mark : Text.Mark c) (places : ℕ) {x : Float32}
    (finite : x.isFinite = true) : c ∉ (Single.fixed places x).toList := by
  obtain ⟨p, parts⟩ := exists_parts? finite
  rw [fixed, parts]
  exact Decimal.mark_not_mem_fixedText mark _ _ _ _

/-! ## Levels from zero to one -/

namespace Single

variable {x : Float32} {q : ℚ}

/-- A whole number of units of a grid is held by single precision. -/
theorem exists_worth_eq {m : ℕ} {e : ℤ} (small : m < 2 ^ 24) (least : -149 ≤ e)
    (bounded : (m : ℚ) * 2 ^ e ≤ 2 ^ 128) : ∃ y, worth y = m * 2 ^ e := by
  rcases Nat.eq_zero_or_pos m with rfl | pos
  · exact ⟨0, by rw [worth_zero, Nat.cast_zero, zero_mul]⟩
  · obtain ⟨r, near, packed⟩ := exists_worth_round e pos
    have none : |r - m * 2 ^ e| ≤ 0 :=
      (near _ (onGrid_natCast_mul small least) (by rwa [abs_of_nonneg (kept_pos pos).le])).trans_eq
        (by simp)
    rw [abs_nonpos_iff, sub_eq_zero] at none
    exact ⟨_, (packed .positive).trans none⟩

/-- **What is nearest to a number up to one is no further from it than `2⁻²³`**, since the multiples
of that are numbers of single precision. -/
theorem Nearest.abs_sub_le_of_unit (h : Nearest q x) (nonneg : 0 ≤ q) (le_one : q ≤ 1) :
    |worth x - q| ≤ 1 / 2 ^ 23 := by
  let m := ⌊q * 2 ^ 23⌋₊
  have below : (m : ℚ) ≤ q * 2 ^ 23 := Nat.floor_le (by positivity)
  have above : q * 2 ^ 23 < m + 1 := Nat.lt_floor_add_one _
  have few : (m : ℚ) ≤ 2 ^ 23 := by linarith
  have unit : (2 : ℚ) ^ (-23 : ℤ) = 1 / 2 ^ 23 := by norm_num
  obtain ⟨y, hy⟩ : ∃ y, worth y = m * 2 ^ (-23 : ℤ) := by
    refine exists_worth_eq ?_ (by norm_num) ?_
    · have short : m ≤ 2 ^ 23 := by exact_mod_cast few
      omega
    · rw [unit]
      linarith
  refine (h.2 y).trans ?_
  rw [hy, unit, abs_le]
  constructor <;> linarith

theorem clampUnit_of_mem (nonneg : 0 ≤ x) (le_one : x ≤ 1) : Scalar.clampUnit x = x := by
  obtain ⟨zero, definite⟩ := le_self_of_le nonneg
  have one := (le_self_of_le le_one).2
  have not_below : ¬x < 0 := fun below => (lt_iff_not_le definite zero).mp below nonneg
  have not_above : ¬1 < x := fun above => (lt_iff_not_le one definite).mp above le_one
  unfold Scalar.clampUnit Scalar.clamp
  rw [if_neg not_below, if_neg not_above]

theorem worth_byte : worth 255 = 255 := by
  have unpacked : (255 : Float32).toModel.unpack =
      .finite .positive 16711680 (-16) (by decide) := rfl
  rw [worth, unpacked]
  norm_num [worthOf, signed]

/-- The interval a number lies in is that of what it is worth. -/
theorem worth_mem {lo hi : Float32} (above : lo ≤ x) (below : x ≤ hi) :
    worth lo ≤ worth x ∧ worth x ≤ worth hi := by
  obtain ⟨definite_lo, definite⟩ := le_self_of_le above
  obtain ⟨-, definite_hi⟩ := le_self_of_le below
  exact ⟨(le_iff_worth definite_lo definite).mp above, (le_iff_worth definite definite_hi).mp below⟩

/-- **A level over 255 is a number from zero to one**, and next to nothing is lost. -/
theorem level_div_byte (nonneg : 0 ≤ x) (le_byte : x ≤ 255) :
    (0 ≤ x / 255 ∧ x / 255 ≤ 1) ∧ |worth (x / 255) - worth x / 255| ≤ 1 / 2 ^ 23 := by
  have finite : x.isFinite = true := isFinite_of_mem (by decide) (by decide) nonneg le_byte
  obtain ⟨worth_nonneg, worth_le⟩ := worth_mem nonneg le_byte
  rw [worth_zero] at worth_nonneg
  rw [worth_byte] at worth_le
  have near : Nearest (worth x / 255) (x / 255) := by
    have quotient := nearest_div finite (y := 255) (by decide) (by rw [worth_byte]; norm_num)
    rwa [worth_byte] at quotient
  have quotient_nonneg : 0 ≤ worth x / 255 := by positivity
  have quotient_le : worth x / 255 ≤ 1 := (div_le_one (by norm_num)).mpr worth_le
  refine ⟨⟨?_, ?_⟩, near.abs_sub_le_of_unit quotient_nonneg quotient_le⟩
  · exact near.ge_of_ge (by decide) (by rwa [worth_zero])
  · exact near.le_of_le (by decide) (by rwa [worth_one])

end Single

/-! ## One point -/

namespace CurvePoint

/-- **A point that needs no clamping**: its time lies in the effect, and its value is a level. -/
structure InRange (p : CurvePoint Float32) : Prop where
  time : 0 ≤ p.t ∧ p.t ≤ 1
  level : 0 ≤ p.value ∧ p.value ≤ 255

/-- A point as its text shows it. -/
def shown (p : CurvePoint Float32) : ℚ × ℚ :=
  (Decimal.shown 3 (Single.worth p.t), Decimal.shown 3 (Single.worth (p.value / 255)))

variable {p : CurvePoint Float32}

theorem InRange.finite (h : p.InRange) :
    p.t.isFinite = true ∧ (p.value / 255).isFinite = true := by
  obtain ⟨⟨nonneg, le_one⟩, -⟩ := Single.level_div_byte h.level.1 h.level.2
  exact ⟨Single.isFinite_of_mem (by decide) (by decide) h.time.1 h.time.2,
    Single.isFinite_of_mem (by decide) (by decide) nonneg le_one⟩

/-- A point in range is written as it is. -/
theorem InRange.descriptor_toList (h : p.InRange) : p.descriptor.toList =
    (Single.fixed 3 p.t).toList ++ ':' :: (Single.fixed 3 (p.value / 255)).toList := by
  obtain ⟨⟨nonneg, le_one⟩, -⟩ := Single.level_div_byte h.level.1 h.level.2
  unfold descriptor
  rw [Single.clampUnit_of_mem h.time.1 h.time.2, Single.clampUnit_of_mem nonneg le_one]
  simp only [String.toList_append]
  simp
  rfl

/-- A mark other than the colon is not in the text of a point. -/
theorem InRange.mark_not_mem_descriptor (h : p.InRange) {c : Char} (mark : Text.Mark c)
    (colon : c ≠ ':') : c ∉ p.descriptor.toList := by
  rw [h.descriptor_toList, List.mem_append, List.mem_cons, not_or, not_or]
  exact ⟨Single.mark_not_mem_fixed mark 3 h.finite.1, colon,
    Single.mark_not_mem_fixed mark 3 h.finite.2⟩

/-- **A point is read as its text shows it.** -/
theorem InRange.read?_descriptor (h : p.InRange) : read? p.descriptor.toList = some p.shown := by
  have colon : Text.Mark ':' := by decide
  have pieces : p.descriptor.toList.splitOn ':' =
      [(Single.fixed 3 p.t).toList, (Single.fixed 3 (p.value / 255)).toList] := by
    have joined : p.descriptor.toList = [':'].intercalate
        [(Single.fixed 3 p.t).toList, (Single.fixed 3 (p.value / 255)).toList] := by
      rw [h.descriptor_toList]
      simp [List.intercalate]
    rw [joined]
    refine List.splitOn_intercalate ':' ?_ (List.cons_ne_nil _ _)
    simp only [List.forall_mem_cons]
    exact ⟨Single.mark_not_mem_fixed colon 3 h.finite.1,
      Single.mark_not_mem_fixed colon 3 h.finite.2, fun _ none => nomatch none⟩
  rw [read?, pieces]
  simp only [String.ofList_toList, Single.decimal?_fixed (by decide : 0 < 3) h.finite.1,
    Single.decimal?_fixed (by decide : 0 < 3) h.finite.2]
  rfl

/-- **What a player makes of a point** is its time within half a thousandth, and its value within
0.13. -/
theorem InRange.shown_near (h : p.InRange) :
    |p.shown.1 - Single.worth p.t| ≤ 0.0005 ∧
      |p.shown.2 * 255 - Single.worth p.value| ≤ 0.13 := by
  have time := Decimal.abs_shown_sub_le 3 (Single.worth p.t)
  have level := abs_le.mp (Decimal.abs_shown_sub_le 3 (Single.worth (p.value / 255)))
  have division := abs_le.mp (Single.level_div_byte h.level.1 h.level.2).2
  norm_num at time level division
  refine ⟨by norm_num; exact time, abs_le.mpr ?_⟩
  unfold shown
  constructor <;> norm_num <;> linarith

end CurvePoint

/-! ## All points -/

namespace Curve

variable {c : Curve Float32}

/-- The points as they are listed. -/
def values (c : Curve Float32) : String := ";".intercalate (c.map CurvePoint.descriptor)

/-- The entries of a descriptor; the last one ends in a bar as well, and nothing comes after it. -/
def entries (number : ℕ) (c : Curve Float32) : List String :=
  ["Active=TRUE", "Id=ID_VALUECURVE_DMX" ++ toString number, "Type=Custom", "Min=0.00",
    "Max=255.00", "RV=TRUE", "Values=" ++ values c, ""]

theorem descriptor_eq_intercalate (number : ℕ) (c : Curve Float32) :
    descriptor number c = "|".intercalate (entries number c) := by
  have start : "Active=TRUE|Id=ID_VALUECURVE_DMX" =
      "Active=TRUE" ++ "|" ++ "Id=ID_VALUECURVE_DMX" := by decide
  have middle : "|Type=Custom|Min=0.00|Max=255.00|RV=TRUE|Values=" =
      "|" ++ "Type=Custom" ++ "|" ++ "Min=0.00" ++ "|" ++ "Max=255.00" ++ "|" ++ "RV=TRUE" ++ "|" ++
        "Values=" := by decide
  unfold descriptor entries values
  simp only [start, middle, String.intercalate_cons_cons, String.intercalate_singleton,
    String.append_assoc, String.append_empty]

theorem toList_values (c : Curve Float32) :
    (values c).toList = [';'].intercalate (c.map fun p => p.descriptor.toList) := by
  rw [values, String.toList_intercalate, List.map_map]
  rfl

/-- A mark other than colon and semicolon is not in the list of points. -/
theorem mark_not_mem_values (in_range : ∀ p ∈ c, p.InRange) {d : Char} (mark : Text.Mark d)
    (colon : d ≠ ':') (semicolon : d ≠ ';') : d ∉ (values c).toList := by
  refine Text.not_mem_intercalate (by simpa using semicolon) fun s hs => ?_
  obtain ⟨p, hp, rfl⟩ := List.mem_map.mp hs
  exact (in_range p hp).mark_not_mem_descriptor mark colon

theorem bar_not_mem_entries (number : ℕ) (in_range : ∀ p ∈ c, p.InRange) :
    ∀ s ∈ entries number c, '|' ∉ s.toList := by
  have bar : Text.Mark '|' := by decide
  have digits : '|' ∉ (toString number).toList :=
    bar.not_mem_of_digits fun _ => Text.isDigit_of_mem_toString
  have points : '|' ∉ (values c).toList :=
    mark_not_mem_values in_range bar (by decide) (by decide)
  simp only [entries, List.forall_mem_cons, String.toList_append, List.mem_append, not_or, digits,
    points, not_false_eq_true, and_true]
  simp

/-- The list of points is found under its key. -/
theorem findSome?_entries (number : ℕ) (c : Curve Float32) :
    ((entries number c).map String.toList).findSome? "Values=".toList.isPrefixOf? =
      some (values c).toList := by
  have other : "Values=".toList.isPrefixOf? ("Id=ID_VALUECURVE_DMX" ++ toString number).toList =
      none := by
    rw [String.toList_append]
    rfl
  have key : "Values=".toList.isPrefixOf? ("Values=" ++ values c).toList =
      some (values c).toList := by
    rw [String.toList_append]
    exact List.isPrefixOf?_eq_some_iff_append_eq.mpr rfl
  simp only [entries, List.map_cons, List.findSome?_cons, other, key]
  rfl

/-- **The points of a curve are read as their texts show them**, one for each and in order. -/
theorem read?_descriptor (number : ℕ) (some_points : c ≠ [])
    (in_range : ∀ p ∈ c, p.InRange) :
    read? (descriptor number c) = some (c.map CurvePoint.shown) := by
  have semicolon : Text.Mark ';' := by decide
  have entered : (descriptor number c).toList.splitOn '|' =
      (entries number c).map String.toList := by
    rw [descriptor_eq_intercalate, String.toList_intercalate]
    refine List.splitOn_intercalate '|' (fun piece listed => ?_) (by simp [entries])
    obtain ⟨s, hs, rfl⟩ := List.mem_map.mp listed
    exact bar_not_mem_entries number in_range s hs
  have pieces : (values c).toList.splitOn ';' = c.map fun p => p.descriptor.toList := by
    rw [toList_values]
    refine List.splitOn_intercalate ';' (fun piece listed => ?_) (by simpa using some_points)
    obtain ⟨p, hp, rfl⟩ := List.mem_map.mp listed
    exact (in_range p hp).mark_not_mem_descriptor semicolon (by decide)
  rw [read?, entered, findSome?_entries, Option.bind_eq_bind, Option.bind_some, pieces]
  exact mapM_map_eq_some fun p hp => (in_range p hp).read?_descriptor

example : read? "Id=ID_VALUECURVE_DMX1|Type=Custom|Values=0.000:0.000;1.000:0.502|" =
    some [(0, 0), (1, 251 / 500)] := by decide +kernel

end Curve

/-- The setting of a channel that is assigned something. -/
theorem Effect.mem_settings_of_assigned {α : Type} [Scalar α] (e : Effect α) (f : Fixture α)
    {number : ℕ} {a : Assignment α} (h : (number, a) ∈ f.channels.assignments e.channels)
    (setting : ChannelSetting) :
    (number, setting) ∈ (e.settings f).channels ↔ setting = a.setting number := by
  have listed : (number, a.setting number) ∈ (e.settings f).channels :=
    List.mem_map.mpr ⟨(number, a), h, rfl⟩
  constructor
  · intro h'
    exact e.setting_unique f h' listed
  · rintro rfl
    exact listed

/-- **A player gets every curve of an effect back**, but for what three places cannot hold. A channel
that is assigned a curve with points in range has one setting, which is a descriptor, and this
lists a pair for each point and in order: its time within half a thousandth, and its level, which
times 255 is its value within 0.13. Times that go up are listed going up. -/
theorem Effect.curves_read_back (e : Effect Float32) (f : Fixture Float32) {number : ℕ}
    {c : Curve Float32} (assigned : (number, .value (.curve c)) ∈ f.channels.assignments e.channels)
    (some_points : c ≠ []) (in_range : ∀ p ∈ c, p.InRange) :
    ∃ descriptor pairs,
      (∀ setting, (number, setting) ∈ (e.settings f).channels ↔ setting = .curve descriptor) ∧
      Curve.read? descriptor = some pairs ∧
      List.Forall₂ (fun p q => |q.1 - Single.worth p.t| ≤ 0.0005 ∧
        |q.2 * 255 - Single.worth p.value| ≤ 0.13) c pairs ∧
      (c.Pairwise (fun p q => p.t ≤ q.t) → pairs.Pairwise fun p q => p.1 ≤ q.1) := by
  refine ⟨c.descriptor number, c.map CurvePoint.shown, e.mem_settings_of_assigned f assigned,
    Curve.read?_descriptor number some_points in_range, ?_, fun ordered => ?_⟩
  · rw [List.forall₂_map_right_iff, List.forall₂_same]
    exact fun p hp => (in_range p hp).shown_near
  · rw [List.pairwise_map]
    refine ordered.imp fun {p q} le => Decimal.shown_mono 3 ?_
    obtain ⟨definite, definite'⟩ := Single.le_self_of_le le
    exact (Single.le_iff_worth definite definite').mp le

/-- A pan that rises fast and then slowly, on a head that is patched as usual. -/
theorem Effect.curves_read_back_of_pan :
    let c : Curve Float32 := [⟨0, 0⟩, ⟨0.25, 100⟩, ⟨1, 255⟩]
    let e : Effect Float32 := {
      fixtureId := "MH1"
      startMs := 0
      endMs := 4000
      channels := { pan := .curve c, tilt := .hold 90, dimmer := .hold 255 }
      boundary := {}
      label := ""
      metadata := [] }
    let f : Fixture Float32 := { id := "MH1" }
    (1, .value (.curve c)) ∈ f.channels.assignments e.channels ∧ c ≠ [] ∧ (∀ p ∈ c, p.InRange) ∧
      ∃ descriptor pairs,
        (∀ setting, (1, setting) ∈ (e.settings f).channels ↔ setting = .curve descriptor) ∧
        Curve.read? descriptor = some pairs ∧
        List.Forall₂ (fun p q => |q.1 - Single.worth p.t| ≤ 0.0005 ∧
          |q.2 * 255 - Single.worth p.value| ≤ 0.13) c pairs ∧
        (c.Pairwise (fun p q => p.t ≤ q.t) → pairs.Pairwise fun p q => p.1 ≤ q.1) := by
  intro c e f
  have assigned : (1, .value (.curve c)) ∈ f.channels.assignments e.channels :=
    (f.channels.mem_assignments_iff e.channels).mpr
      ⟨.pan, rfl, fun _ _ _ _ => Nat.zero_le _⟩
  have some_points : c ≠ [] := List.cons_ne_nil _ _
  have in_range : ∀ p ∈ c, p.InRange := by
    simp only [c, List.forall_mem_cons]
    exact ⟨⟨by decide, by decide⟩, ⟨by decide, by decide⟩, ⟨by decide, by decide⟩,
      fun _ none => nomatch none⟩
  exact ⟨assigned, some_points, in_range, curves_read_back e f assigned some_points in_range⟩

end MovingLight
