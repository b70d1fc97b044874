import MovingLight.Proofs.Scalar.Exact
import MovingLight.Rig.Axis

/-!
# Windows — the levels a channel may take

A window is given by two bytes and limits numbers that are no bytes. Its
`Window.range` is what it allows, as an interval of numbers, and the range of an
axis (`Axis.range`) lies between its two bounds, whichever is named first.

Two ways lead into a window and both stay inside: limiting a number
(`Window.clamp_mem`), and rounding a number of the window to a byte
(`Dmx.level_mem`). The second holds because the ends of a window are whole
numbers; it would fail for a window with an end between two levels.
-/

namespace MovingLight

/-- The numbers a window allows. -/
def Window.range (w : Window) : Set ℚ := Set.Icc (w.lo.toNat : ℚ) (w.hi.toNat : ℚ)

/-- The numbers an axis allows: those between its bounds, in either order. -/
def Axis.range (a : Axis) : Set ℚ :=
  Set.Icc (min (a.minDmx.toNat : ℚ) (a.maxDmx.toNat : ℚ))
    (max (a.minDmx.toNat : ℚ) (a.maxDmx.toNat : ℚ))

instance (w : Window) : w.range.OrdConnected := Set.ordConnected_Icc

instance (a : Axis) : a.range.OrdConnected := Set.ordConnected_Icc

theorem Window.lo_le_hi_cast (w : Window) : (w.lo.toNat : ℚ) ≤ (w.hi.toNat : ℚ) := by
  have h := w.lo_le_hi
  rw [UInt8.le_iff_toNat_le] at h
  exact_mod_cast h

/-- Every window lies among the levels of a byte. -/
theorem Window.range_subset (w : Window) : w.range ⊆ Set.Icc (0 : ℚ) 255 := by
  have hi_le : w.hi.toNat ≤ 255 := Nat.le_of_lt_succ w.hi.toNat_lt
  rintro x ⟨hlo, hhi⟩
  refine ⟨le_trans (Nat.cast_nonneg _) hlo, le_trans hhi ?_⟩
  exact_mod_cast hi_le

/-- The window of an axis allows what lies between the bounds of the axis. -/
theorem Axis.window_range (a : Axis) : a.window.range = a.range := by
  unfold Axis.window Window.between Window.range Axis.range
  split
  · rename_i h
    have ordered : (a.minDmx.toNat : ℚ) ≤ (a.maxDmx.toNat : ℚ) := by
      rw [UInt8.le_iff_toNat_le] at h
      exact_mod_cast h
    rw [min_eq_left ordered, max_eq_right ordered]
  · rename_i h
    have reversed : (a.maxDmx.toNat : ℚ) ≤ (a.minDmx.toNat : ℚ) := by
      rw [UInt8.le_iff_toNat_le, Nat.not_le] at h
      exact_mod_cast Nat.le_of_lt h
    rw [min_eq_right reversed, max_eq_left reversed]

variable [ExactReading]

theorem Window.clamp_mem (w : Window) (x : ℚ) : w.clamp x ∈ w.range :=
  Scalar.clamp_mem w.lo_le_hi_cast x

/-- A direction is brought into the window of its axis. -/
theorem Axis.dmxOf_mem (a : Axis) (degrees : ℚ) : a.dmxOf degrees ∈ a.range := by
  rw [← a.window_range]
  exact a.window.clamp_mem _

/-- The byte nearest to a number that lies among the levels of a byte. -/
theorem Dmx.level_toNat {x : ℚ} (h : x ∈ Set.Icc (0 : ℚ) 255) :
    ((Dmx.level x).toNat : ℤ) = ⌊x + 1 / 2⌋ := by
  obtain ⟨hlo, hhi⟩ := h
  have nonneg : 0 ≤ ⌊x + 1 / 2⌋ := Int.floor_nonneg.mpr (by linarith)
  have le_255 : ⌊x + 1 / 2⌋ ≤ 255 := by
    have below : ⌊x + 1 / 2⌋ < 256 := Int.floor_lt.mpr (by push_cast; linarith)
    omega
  have rounded : Scalar.round x = (⌊x + 1 / 2⌋ : ℚ) := if_neg (not_lt.mpr hlo)
  have kept : Scalar.clamp 0 255 (Scalar.round x) = (⌊x + 1 / 2⌋ : ℚ) := by
    rw [rounded]
    refine Scalar.clamp_of_mem ⟨?_, ?_⟩
    · exact_mod_cast nonneg
    · exact_mod_cast le_255
  have whole : Scalar.toNat (⌊x + 1 / 2⌋ : ℚ) = ⌊x + 1 / 2⌋.toNat := by
    show min ⌊(⌊x + 1 / 2⌋ : ℚ)⌋.toNat (UInt64.size - 1) = _
    rw [Int.floor_intCast]
    refine Nat.min_eq_left (le_trans ?_ (show 255 ≤ UInt64.size - 1 by decide))
    omega
  have fits : ⌊x + 1 / 2⌋.toNat < 256 := by omega
  unfold Dmx.level
  rw [kept, whole, Nat.toUInt8_eq, UInt8.toNat_ofNat_of_lt' fits]
  exact Int.toNat_of_nonneg nonneg

/-- **Rounding to a byte stays in a window.** -/
theorem Dmx.level_mem {w : Window} {x : ℚ} (h : x ∈ w.range) :
    ((Dmx.level x).toNat : ℚ) ∈ w.range := by
  have nearest := Dmx.level_toNat (w.range_subset h)
  obtain ⟨hlo, hhi⟩ := h
  have lo_le : (w.lo.toNat : ℤ) ≤ ⌊x + 1 / 2⌋ := by
    refine Int.le_floor.mpr ?_
    push_cast
    linarith
  have le_hi : ⌊x + 1 / 2⌋ ≤ (w.hi.toNat : ℤ) := by
    have below : ⌊x + 1 / 2⌋ < (w.hi.toNat : ℤ) + 1 := Int.floor_lt.mpr (by push_cast; linarith)
    omega
  constructor
  · exact_mod_cast (by omega : w.lo.toNat ≤ (Dmx.level x).toNat)
  · exact_mod_cast (by omega : (Dmx.level x).toNat ≤ w.hi.toNat)

end MovingLight
