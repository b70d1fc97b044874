import Mathlib.Data.List.GetD
import MovingLight.Proofs.Scalar.Exact
import MovingLight.Rig.Slot

/-!
# Presets — a table read in straight lines

A table is read at a position between its first and its last entry, and between two entries it
runs in a straight line. Where the position is at an entry there are two lines to choose from, the
one that ends there and the one that starts, and they agree (`Preset.Line.height_eq`); a
reader takes the second, unless there is none.

So it does not matter from which end a table is read (`presetAt_reverse`), one that is turned
upside down gives everything upside down (`presetAt_map_neg`), and one whose entries go up goes up
all along (`presetAt_mono`).
-/

namespace MovingLight

open Scalar

variable [ExactReading]

theorem Scalar.clampUnit_mono {x y : ℚ} (h : x ≤ y) : clampUnit x ≤ clampUnit y := by
  unfold clampUnit clamp
  split_ifs <;> linarith

theorem Scalar.clampUnit_one_sub (x : ℚ) : clampUnit (1 - x) = 1 - clampUnit x := by
  unfold clampUnit clamp
  split_ifs <;> linarith

namespace Preset

variable {preset : List ℚ} {position : ℚ} {l m : Nat}

/-- How far along a table a position is, in steps from one entry to the next. -/
def along (preset : List ℚ) (position : ℚ) : ℚ :=
  clampUnit position * ((preset.length - 1 : Nat) : ℚ)

theorem along_mem (preset : List ℚ) (position : ℚ) :
    along preset position ∈ Set.Icc (0 : ℚ) ((preset.length - 1 : Nat) : ℚ) := by
  obtain ⟨nonneg, le_one⟩ := clampUnit_mem position
  have length : (0 : ℚ) ≤ ((preset.length - 1 : Nat) : ℚ) := Nat.cast_nonneg _
  exact ⟨mul_nonneg nonneg length, mul_le_of_le_one_left length le_one⟩

theorem along_reverse (preset : List ℚ) (position : ℚ) :
    along preset.reverse (1 - position) =
      ((preset.length - 1 : Nat) : ℚ) - along preset position := by
  unfold along
  rw [clampUnit_one_sub, List.length_reverse]
  ring

/-- **A line of a table**, from one entry to the next, that a point is on. -/
structure Line (preset : List ℚ) (l : Nat) (x : ℚ) : Prop where
  inside : l + 1 < preset.length
  mem : x ∈ Set.Icc (l : ℚ) (l + 1)

/-- The height of a line of a table at some point. -/
def height (preset : List ℚ) (l : Nat) (x : ℚ) : ℚ :=
  between (preset.getD l 0) (preset.getD (l + 1) 0) (x - l)

/-- Two lines that have a point in common are at one height there: it is the entry where one ends
and the other starts. -/
theorem Line.height_eq {x : ℚ} (hl : Line preset l x) (hm : Line preset m x) :
    height preset l x = height preset m x := by
  wlog before : l ≤ m generalizing l m
  · exact (this hm hl (Nat.le_of_not_le before)).symm
  rcases Nat.eq_or_lt_of_le before with rfl | before
  · rfl
  have reach : (l : ℚ) + 1 ≤ m := by exact_mod_cast before
  have at_end : x = l + 1 := le_antisymm hl.mem.2 (le_trans reach hm.mem.1)
  have next : m = l + 1 := by
    have near : (m : ℚ) ≤ l + 1 := at_end ▸ hm.mem.1
    exact le_antisymm (by exact_mod_cast near) before
  subst next
  unfold height between
  rw [at_end]
  push_cast
  ring

/-- The line that a reader takes. -/
def taken (preset : List ℚ) (x : ℚ) : Nat := min ⌊x⌋.toNat (preset.length - 2)

omit [ExactReading] in
theorem line_taken (entries : 1 < preset.length) {x : ℚ}
    (h : x ∈ Set.Icc (0 : ℚ) ((preset.length - 1 : Nat) : ℚ)) : Line preset (taken preset x) x := by
  obtain ⟨nonneg, le_last⟩ := h
  have whole : ((⌊x⌋.toNat : Nat) : ℚ) = ⌊x⌋ := by
    exact_mod_cast Int.toNat_of_nonneg (Int.floor_nonneg.mpr nonneg)
  have above : ((⌊x⌋.toNat : Nat) : ℚ) ≤ x := whole ▸ Int.floor_le x
  have below : x < ((⌊x⌋.toNat : Nat) : ℚ) + 1 := whole ▸ Int.lt_floor_add_one x
  unfold taken
  refine ⟨by omega, ?_⟩
  rcases Nat.le_total ⌊x⌋.toNat (preset.length - 2) with inner | last
  · rw [Nat.min_eq_left inner]
    exact ⟨above, le_of_lt below⟩
  · rw [Nat.min_eq_right last]
    refine ⟨le_trans (Nat.cast_le.mpr last) above, ?_⟩
    have length : preset.length - 1 = preset.length - 2 + 1 := by omega
    rw [length] at le_last
    exact_mod_cast le_last

theorem presetAt_eq_height (size : preset.length ≤ UInt64.size) (entries : 1 < preset.length)
    (position : ℚ) : presetAt preset position =
      height preset (taken preset (along preset position)) (along preset position) := by
  obtain ⟨nonneg, le_last⟩ := along_mem preset position
  -- a table that can be addressed is read with numbers that can be counted
  have counted : toNat (floor (along preset position)) = ⌊along preset position⌋.toNat := by
    show min ⌊((⌊along preset position⌋ : ℤ) : ℚ)⌋.toNat (UInt64.size - 1) = _
    rw [Int.floor_intCast]
    have few : ⌊along preset position⌋ ≤ ((preset.length - 1 : Nat) : ℤ) :=
      Int.floor_le_iff.mpr (lt_of_le_of_lt (by exact_mod_cast le_last) (lt_add_one _))
    omega
  match preset with
  | a :: b :: rest =>
    show between _ _ _ = between _ _ _
    unfold taken
    rw [← counted]
    rfl

/-- **On whichever line a position is, it is read off that line.** -/
theorem presetAt_eq_of_line (size : preset.length ≤ UInt64.size)
    (h : Line preset l (along preset position)) :
    presetAt preset position = height preset l (along preset position) := by
  have entries : 1 < preset.length := by
    have inside := h.inside
    omega
  rw [presetAt_eq_height size entries]
  exact (line_taken entries (along_mem preset position)).height_eq h

/-! ## Tables turned over -/

omit [ExactReading] in
/-- A line runs the other way where a table is read from its other end. -/
theorem Line.reverse {x : ℚ} (h : Line preset l x) :
    Line preset.reverse (preset.length - 2 - l) (((preset.length - 1 : Nat) : ℚ) - x) := by
  obtain ⟨inside, above, below⟩ := h
  have length : preset.length - 1 = preset.length - 2 - l + (l + 1) := by omega
  refine ⟨by rw [List.length_reverse]; omega, ?_⟩
  rw [length]
  push_cast
  constructor <;> linarith

theorem height_reverse (inside : l + 1 < preset.length) (x : ℚ) :
    height preset.reverse (preset.length - 2 - l) (((preset.length - 1 : Nat) : ℚ) - x) =
      height preset l x := by
  have entry {i : Nat} (hi : i < preset.length) :
      preset.reverse.getD i 0 = preset.getD (preset.length - 1 - i) 0 := by
    rw [List.getD_eq_getElem?_getD, List.getD_eq_getElem?_getD, List.getElem?_reverse hi]
  have first : preset.length - 1 - (preset.length - 2 - l) = l + 1 := by omega
  have second : preset.length - 1 - (preset.length - 2 - l + 1) = l := by omega
  have length : preset.length - 1 = preset.length - 2 - l + (l + 1) := by omega
  unfold height between
  rw [entry (by omega), entry (by omega), first, second, length]
  push_cast
  ring

theorem height_map_neg (preset : List ℚ) (l : Nat) (x : ℚ) :
    height (preset.map Neg.neg) l x = -height preset l x := by
  have entry (i : Nat) : (preset.map Neg.neg).getD i 0 = -preset.getD i 0 := by
    rw [← List.getD_map (f := Neg.neg), neg_zero]
  unfold height between
  rw [entry, entry]
  ring

/-! ## Tables that go up -/

omit [ExactReading] in
theorem getD_mono (ordered : preset.Pairwise (· ≤ ·)) (h : l ≤ m) (inside : m < preset.length) :
    preset.getD l 0 ≤ preset.getD m 0 := by
  rw [List.getD_eq_getElem _ _ inside, List.getD_eq_getElem _ _ (Nat.lt_of_le_of_lt h inside)]
  rcases Nat.eq_or_lt_of_le h with rfl | before
  · rfl
  · exact List.pairwise_iff_getElem.mp ordered _ _ _ _ before

/-- A line stays between its entries. -/
theorem Line.height_mem (ordered : preset.Pairwise (· ≤ ·)) {x : ℚ} (h : Line preset l x) :
    height preset l x ∈ Set.Icc (preset.getD l 0) (preset.getD (l + 1) 0) := by
  obtain ⟨inside, above, below⟩ := h
  have up := getD_mono ordered (Nat.le_succ l) inside
  exact between_mem ⟨le_refl _, up⟩ ⟨up, le_refl _⟩ ⟨by linarith, by linarith⟩

/-- Further along is higher, on one line and from one line to a later one. -/
theorem Line.height_le (ordered : preset.Pairwise (· ≤ ·)) {x y : ℚ} (hl : Line preset l x)
    (hm : Line preset m y) (h : x ≤ y) : height preset l x ≤ height preset m y := by
  rcases Nat.lt_trichotomy l m with before | rfl | after
  · calc height preset l x
        ≤ preset.getD (l + 1) 0 := (hl.height_mem ordered).2
      _ ≤ preset.getD m 0 := getD_mono ordered before (by have := hm.inside; omega)
      _ ≤ height preset m y := (hm.height_mem ordered).1
  · have up := getD_mono ordered (Nat.le_succ l) hl.inside
    unfold height between
    have rise := mul_le_mul_of_nonneg_left (sub_le_sub_right h (l : ℚ)) (sub_nonneg.mpr up)
    linarith
  · -- a line that ends where the other starts
    have reach : (m : ℚ) + 1 ≤ l := by exact_mod_cast after
    obtain rfl : x = y := le_antisymm h (hm.mem.2.trans (reach.trans hl.mem.1))
    exact le_of_eq (hl.height_eq hm)

end Preset

open Preset

variable {preset : List ℚ}

/-- **A table may be read from either end.** -/
theorem presetAt_reverse (size : preset.length ≤ UInt64.size) (position : ℚ) :
    presetAt preset.reverse (1 - position) = presetAt preset position := by
  rcases Nat.lt_or_ge 1 preset.length with entries | few
  · have line := line_taken entries (along_mem preset position)
    have turned := line.reverse
    rw [← along_reverse] at turned
    rw [presetAt_eq_of_line (List.length_reverse.trans_le size) turned,
      presetAt_eq_of_line size line, along_reverse, height_reverse line.inside]
  · match preset with
    | [] => rfl
    | [v] => rfl

theorem presetAt_map_neg (size : preset.length ≤ UInt64.size) (position : ℚ) :
    presetAt (preset.map Neg.neg) position = -presetAt preset position := by
  have length : (preset.map Neg.neg).length = preset.length := List.length_map _
  rcases Nat.lt_or_ge 1 preset.length with entries | few
  · have line := line_taken entries (along_mem preset position)
    have same : along (preset.map Neg.neg) position = along preset position := by
      rw [along, length, along]
    have turned : Line (preset.map Neg.neg) (taken preset (along preset position))
        (along (preset.map Neg.neg) position) := ⟨length ▸ line.inside, same ▸ line.mem⟩
    rw [presetAt_eq_of_line (length.trans_le size) turned, presetAt_eq_of_line size line, same,
      height_map_neg]
  · match preset with
    | [] => exact neg_zero.symm
    | [v] => rfl

/-- **A table whose entries go up goes up all along.** -/
theorem presetAt_mono (size : preset.length ≤ UInt64.size) (ordered : preset.Pairwise (· ≤ ·))
    {x y : ℚ} (h : x ≤ y) : presetAt preset x ≤ presetAt preset y := by
  rcases Nat.lt_or_ge 1 preset.length with entries | few
  · have first := line_taken entries (along_mem preset x)
    have second := line_taken entries (along_mem preset y)
    have further : along preset x ≤ along preset y :=
      mul_le_mul_of_nonneg_right (clampUnit_mono h) (Nat.cast_nonneg _)
    rw [presetAt_eq_of_line size first, presetAt_eq_of_line size second]
    exact first.height_le ordered second further
  · match preset with
    | [] => exact le_refl _
    | [v] => exact le_refl _

end MovingLight
