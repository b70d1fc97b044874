import Mathlib.Algebra.Ring.Periodic
import MovingLight.Proofs.Channel.Window
import MovingLight.Proofs.Curve.Reading

/-!
# Mirroring — a channel against itself

Heads that move against one another run along one curve and its mirror image. An inverted
channel shows at a time what the channel does not: its lowest and its highest value together,
less the value at that time.

A wave is mirrored at every one of its points, with whatever phase it is moved ahead
(`ChannelValue.valueAt_shifted_wave`). Where the phase is a turn or more this rests on the sine
coming round, of which the exact reading says nothing by itself.

A curve is mirrored at every point but the last (`ChannelValue.valueAt_shifted_curve`). It is
read at times that are reduced to one turn, so that a phase moves what comes past the end to
the start; but the very end is reduced too, and what is mirrored there is the start of the
curve, phase or not. An inverted curve therefore comes back in its last step to the image of
where it began (`ChannelValue.not_shifted_mirrors`), and is the image of the whole curve exactly
if the curve ends where it starts.
-/

namespace MovingLight

/-- A curve lies between its smallest and its largest value. -/
theorem Curve.within_of_extremes {c : Curve ℚ} {lo hi : ℚ}
    (hlo : (c.map (·.value)).min? = some lo) (hhi : (c.map (·.value)).max? = some hi) :
    c.Within (Set.Icc lo hi) := by
  obtain ⟨low, le⟩ := List.min?_eq_some_iff.mp hlo
  constructor
  · rintro rfl
    cases low
  · intro p hp
    exact ⟨le _ (List.mem_map_of_mem hp),
      (List.max?_eq_some_iff.mp hhi).2 _ (List.mem_map_of_mem hp)⟩

section

variable [ExactReading]

/-! ## Remainders -/

namespace Scalar

theorem emod_of_mem {x y : ℚ} (h : x ∈ Set.Ico 0 y) : emod x y = x := by
  have positive : 0 < y := lt_of_le_of_lt h.1 h.2
  have floor : ⌊x / y⌋ = 0 :=
    Int.floor_eq_zero_iff.mpr ⟨div_nonneg h.1 positive.le, (div_lt_one positive).mpr h.2⟩
  show x - ⌊x / |y|⌋ * |y| = x
  rw [abs_of_pos positive, floor, Int.cast_zero, zero_mul, sub_zero]

/-- What is left of a turn and more is the number less whole turns. -/
theorem exists_emod_eq (x : ℚ) {y : ℚ} (h : 0 < y) : ∃ k : ℤ, x = emod x y + k * y :=
  ⟨⌊x / |y|⌋, by
    show x = x - ⌊x / |y|⌋ * |y| + ⌊x / |y|⌋ * y
    rw [abs_of_pos h]
    ring⟩

theorem emod_one_add_intCast (x : ℚ) (k : ℤ) : emod (x + k) 1 = emod x 1 := by
  show x + k - ⌊(x + k) / |1|⌋ * |1| = x - ⌊x / |1|⌋ * |1|
  rw [abs_one, div_one, div_one, Int.floor_add_intCast]
  push_cast
  ring

/-- The end of a turn is the start of the next. -/
theorem emod_one_one : emod (1 : ℚ) 1 = 0 := by
  have start : emod (0 : ℚ) 1 = 0 := emod_of_mem ⟨le_rfl, zero_lt_one⟩
  have next := emod_one_add_intCast 0 1
  rwa [start, Int.cast_one, zero_add] at next

theorem evenTime_last {n : Nat} (h : 1 < n) : evenTime (n - 1) n = (1 : ℚ) := by
  have positive : (0 : ℚ) < ((n - 1 : Nat) : ℚ) := by
    rw [Nat.cast_pos]
    omega
  exact div_self positive.ne'

end Scalar

/-! ## Waves, a whole number of turns further -/

namespace Wave

/-- **A wave comes round**: a whole number of turns further it is as high as before. -/
theorem height_add_intCast (round : Function.Antiperiodic (Scalar.sin : ℚ → ℚ) Scalar.pi)
    (w : Wave ℚ) (t turns : ℚ) (k : ℤ) : w.height t (turns + k) = w.height t turns := by
  have remainder : Scalar.emod (turns + k) 1 = Scalar.emod turns 1 :=
    Scalar.emod_one_add_intCast turns k
  unfold height
  cases w.shape with
  | sine =>
    have further : 2 * Scalar.pi * (turns + k) = 2 * Scalar.pi * turns + k * (2 * Scalar.pi) := by
      ring
    have same := round.periodic_two_mul.int_mul k (2 * Scalar.pi * turns)
    dsimp only
    rw [further, same]
  | absSine =>
    have size : Function.Periodic (fun x : ℚ => Scalar.abs (Scalar.sin x)) Scalar.pi := by
      intro x
      show |Scalar.sin (x + Scalar.pi)| = |Scalar.sin x|
      rw [round x, abs_neg]
    have further : Scalar.pi * (turns + k) = Scalar.pi * turns + k * Scalar.pi := by ring
    have same := size.int_mul k (Scalar.pi * turns)
    dsimp only at same ⊢
    rw [further, same]
  | sawTooth => exact remainder
  | square =>
    dsimp only
    rw [remainder]
  | flat | ramp | rampUpDown | parabolicDown | parabolicUp => rfl

/-- A phase counts for what is left of it after whole turns. -/
theorem sampleWithPhase_emod (w : Wave ℚ) (t phaseDeg : ℚ)
    (h : phaseDeg ∈ Set.Ico (0 : ℚ) 360 ∨
      Function.Antiperiodic (Scalar.sin : ℚ → ℚ) Scalar.pi) :
    w.sampleWithPhase t (Scalar.emod phaseDeg 360) = w.sampleWithPhase t phaseDeg := by
  rcases h with within | round
  · rw [Scalar.emod_of_mem within]
  · obtain ⟨k, hk⟩ := Scalar.exists_emod_eq phaseDeg (y := 360) (by norm_num)
    generalize Scalar.emod phaseDeg 360 = rest at hk ⊢
    have turns (x : ℚ) : x + phaseDeg / 360 = x + rest / 360 + k := by
      rw [hk]
      ring
    unfold sampleWithPhase
    dsimp only
    rw [turns, height_add_intCast round]

end Wave

/-! ## Mirror images -/

/-- A level between two others is reflected about their middle to one between them. -/
theorem reflected_of_mem {lo hi x : ℚ} (hlo : 0 ≤ lo) (hhi : hi ≤ 255) (hx : x ∈ Set.Icc lo hi) :
    reflected ((lo + hi) / 2) x = lo + hi - x := by
  have image : 2 * ((lo + hi) / 2) - x = lo + hi - x := by ring
  have inside : lo + hi - x ∈ Set.Icc (0 : ℚ) 255 :=
    ⟨by linarith [hx.2], by linarith [hx.1]⟩
  rw [reflected, image]
  exact Scalar.clamp_of_mem inside

/-- The middle of a curve lies halfway between its smallest and its largest value. -/
theorem Curve.middle_eq {c : Curve ℚ} {lo hi : ℚ} (hlo : (c.map (·.value)).min? = some lo)
    (hhi : (c.map (·.value)).max? = some hi) : c.middle = (lo + hi) / 2 := by
  show ((List.foldl Scalar.runningMin none _).getD 0 +
    (List.foldl Scalar.runningMax none _).getD 0) / 2 = _
  rw [Scalar.foldl_runningMin, Scalar.foldl_runningMax, hlo, hhi]
  rfl

namespace ChannelValue

variable {count i : Nat}

/-- **A wave is mirrored at every one of its points**, moved ahead by whatever phase. -/
theorem valueAt_shifted_wave {w : Wave ℚ} (low : 0 ≤ w.min) (ordered : w.min ≤ w.max)
    (high : w.max ≤ 255) {phaseDeg : ℚ}
    (h : phaseDeg ∈ Set.Ico (0 : ℚ) 360 ∨
      Function.Antiperiodic (Scalar.sin : ℚ → ℚ) Scalar.pi) (inside : i < max count 2) :
    ((wave w).shifted phaseDeg true count).valueAt (Scalar.evenTime i (max count 2)) =
      w.min + w.max - w.sampleWithPhase (Scalar.evenTime i (max count 2)) phaseDeg := by
  have swing := w.sampleWithPhase_mem_uIcc (Scalar.evenTime i (max count 2)) phaseDeg
  rw [Set.uIcc_of_le ordered] at swing
  have drawn : (wave w).shifted phaseDeg true count = curve (Curve.sampled count fun t =>
      reflected ((w.min + w.max) / 2) (w.sampleWithPhase t (Scalar.emod phaseDeg 360))) := by
    simp [shifted]
  rw [drawn]
  show Curve.valueAt (Curve.sampled count _) _ = _
  rw [Curve.valueAt_sampled _ inside, w.sampleWithPhase_emod _ _ h]
  exact reflected_of_mem low high swing

/-- An inverted curve is mirrored at its times, reduced to one turn. -/
theorem valueAt_shifted_curve {c : Curve ℚ} {lo hi : ℚ}
    (hlo : (c.map (·.value)).min? = some lo) (hhi : (c.map (·.value)).max? = some hi)
    (low : 0 ≤ lo) (high : hi ≤ 255) (inside : i < max count 2) :
    ((curve c).shifted 0 true count).valueAt (Scalar.evenTime i (max count 2)) =
      lo + hi - c.valueAt (Scalar.emod (Scalar.evenTime i (max count 2)) 1) := by
  have within := (Curve.within_of_extremes hlo hhi).valueAt_mem
    (Scalar.emod (Scalar.evenTime i (max count 2)) 1)
  have no_phase (t : ℚ) : t + Scalar.emod 0 360 / 360 = t := by
    rw [Scalar.emod_of_mem ⟨le_rfl, by norm_num⟩, zero_div, add_zero]
  have drawn : (curve c).shifted 0 true count = curve (Curve.sampled count fun t =>
      reflected ((lo + hi) / 2) (c.valueAt (Scalar.emod t 1))) := by
    simp [shifted, no_phase, Curve.middle_eq hlo hhi]
  rw [drawn]
  show Curve.valueAt (Curve.sampled count _) _ = _
  rw [Curve.valueAt_sampled _ inside]
  exact reflected_of_mem low high within

/-- **An inverted channel shows its lowest and highest value together, less what it showed.** A wave
does so at all its points and for every phase, the sine being asked to come round where the phase
is a turn or more. A curve does so at all its points but the last, where it shows the image of its
first value; this is the image of its last value exactly if the two are the same. -/
theorem shifted_mirrors (count : Nat) :
    (∀ (c : Curve ℚ) (lo hi : ℚ), (c.map (·.value)).min? = some lo →
      (c.map (·.value)).max? = some hi → 0 ≤ lo → hi ≤ 255 →
      (∀ i, i + 1 < max count 2 →
        ((curve c).shifted 0 true count).valueAt (Scalar.evenTime i (max count 2)) =
          lo + hi - c.valueAt (Scalar.evenTime i (max count 2))) ∧
      ((curve c).shifted 0 true count).valueAt 1 = lo + hi - c.valueAt 0 ∧
      (((curve c).shifted 0 true count).valueAt 1 = lo + hi - c.valueAt 1 ↔
        c.valueAt 0 = c.valueAt 1)) ∧
    ∀ (w : Wave ℚ) (phaseDeg : ℚ), 0 ≤ w.min → w.min ≤ w.max → w.max ≤ 255 →
      (phaseDeg ∈ Set.Ico (0 : ℚ) 360 ∨
        Function.Antiperiodic (Scalar.sin : ℚ → ℚ) Scalar.pi) →
      ∀ i < max count 2,
        ((wave w).shifted phaseDeg true count).valueAt (Scalar.evenTime i (max count 2)) =
          w.min + w.max - w.sampleWithPhase (Scalar.evenTime i (max count 2)) phaseDeg := by
  have two : 2 ≤ max count 2 := le_max_right count 2
  constructor
  · intro c lo hi hlo hhi low high
    have at_time (i : Nat) (inside : i < max count 2) :
        ((curve c).shifted 0 true count).valueAt (Scalar.evenTime i (max count 2)) =
          lo + hi - c.valueAt (Scalar.emod (Scalar.evenTime i (max count 2)) 1) :=
      valueAt_shifted_curve hlo hhi low high inside
    -- of all times only the very end belongs to the next turn
    have last : ((curve c).shifted 0 true count).valueAt 1 = lo + hi - c.valueAt 0 := by
      have value := at_time (max count 2 - 1) (by omega)
      rwa [Scalar.evenTime_last (by omega), Scalar.emod_one_one] at value
    refine ⟨fun i before => ?_, last, ?_⟩
    · have early : Scalar.evenTime i (max count 2) ∈ Set.Ico (0 : ℚ) 1 :=
        ⟨(Scalar.evenTime_mem (by omega)).1, Scalar.evenTime_lt_one before⟩
      rw [at_time i (by omega), Scalar.emod_of_mem early]
    · rw [last]
      exact sub_right_inj
  · intro w phaseDeg low ordered high round i inside
    exact valueAt_shifted_wave low ordered high round inside

end ChannelValue

end

/-- The sine of two parabolas has the other sign half a turn further. -/
theorem ExactReading.parabola_antiperiodic :
    Function.Antiperiodic ExactReading.parabola (355 / 113) := by
  intro x
  have further : (x + 355 / 113) / (710 / 113) = x / (710 / 113) + 1 / 2 := by ring
  unfold parabola
  dsimp only
  rw [further]
  generalize x / (710 / 113) = turns
  have below := Int.floor_le turns
  have above := Int.lt_floor_add_one turns
  rcases lt_or_ge (turns - ⌊turns⌋) (1 / 2) with early | late
  · have floor : ⌊turns + 1 / 2⌋ = ⌊turns⌋ :=
      Int.floor_eq_iff.mpr ⟨by linarith, by linarith⟩
    have second : ¬turns + 1 / 2 - ⌊turns⌋ < 1 / 2 := by linarith
    rw [floor, if_neg second, if_pos early]
    ring
  · have floor : ⌊turns + 1 / 2⌋ = ⌊turns⌋ + 1 :=
      Int.floor_eq_iff.mpr ⟨by push_cast; linarith, by push_cast; linarith⟩
    have first : turns + 1 / 2 - ((⌊turns⌋ + 1 : ℤ) : ℚ) < 1 / 2 := by
      push_cast
      linarith
    rw [floor, if_pos first, if_neg (not_lt.mpr late)]
    push_cast
    ring

/-- A pan that swings once, moved ahead by a turn and a quarter, against itself. -/
theorem ChannelValue.shifted_mirrors_of_late_sine :
    letI := ExactReading.parabolic
    let c : Curve ℚ := [⟨0, 0⟩, ⟨1 / 4, 100⟩, ⟨1, 40⟩]
    let w : Wave ℚ := Wave.periodic .sine 55 200 1
    let mirrored := (curve c).shifted 0 true 3
    (mirrored.valueAt (Scalar.evenTime 1 3) = 0 + 100 - c.valueAt (Scalar.evenTime 1 3) ∧
      mirrored.valueAt 1 = 0 + 100 - c.valueAt 0) ∧
    ((wave w).shifted 450 true 3).valueAt (Scalar.evenTime 2 3) =
      w.min + w.max - w.sampleWithPhase (Scalar.evenTime 2 3) 450 := by
  intro c w mirrored
  let reading := ExactReading.parabolic
  have mirrors := ChannelValue.shifted_mirrors 3
  have curved := mirrors.1 c 0 100 (by decide +kernel) (by decide +kernel) (by norm_num)
    (by norm_num)
  refine ⟨⟨curved.1 1 (by decide), curved.2.1⟩, ?_⟩
  exact mirrors.2 w 450 (by decide +kernel) (by decide +kernel) (by decide +kernel)
    (Or.inr ExactReading.parabola_antiperiodic) 2 (by decide)

/-- **An inverted curve is not mirrored in its last point.** -/
theorem ChannelValue.not_shifted_mirrors :
    ¬∀ (_ : ExactReading) (c : Curve ℚ) (lo hi : ℚ) (count : Nat),
      (c.Pairwise fun p q => p.t < q.t) → (∀ p ∈ c.head?, p.t = 0) → (∀ p ∈ c.getLast?, p.t = 1) →
      (c.map (·.value)).min? = some lo → (c.map (·.value)).max? = some hi → 0 ≤ lo → hi ≤ 255 →
      ∀ i < max count 2,
        ((curve c).shifted 0 true count).valueAt (Scalar.evenTime i (max count 2)) =
          lo + hi - c.valueAt (Scalar.evenTime i (max count 2)) := by
  intro every
  let reading := ExactReading.parabolic
  have mirrored := every reading (Curve.linear 0 100) 0 100 2 (by decide +kernel)
    (by decide +kernel) (by decide +kernel) (by decide +kernel) (by decide +kernel) (by norm_num)
    (by norm_num) 1 (by decide)
  revert mirrored
  decide +kernel

end MovingLight
