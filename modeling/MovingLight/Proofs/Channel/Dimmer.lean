import MovingLight.Proofs.Channel.Window
import MovingLight.Proofs.Checked.Segment
import MovingLight.Proofs.Random

/-!
# Dimmers — no pattern leaves the limits of its head

Unlike an axis, a dimmer is given limits and not a window, and limits may run backwards.
What a percentage of them comes to has no use for an upper end below the lower one: it
starts from the lower end and goes up by a share of a span that is nothing then. So there
is a window after all, that of the limits or of their lower end alone
(`Limits.dimmed`), and every percentage is a level of it (`Limits.atPercent_mem`),
however far it lies off the scale.

A pattern makes its channel of two such levels, and nothing it makes leaves what lies
between them: a wave swings from the lesser to the greater, a ramp runs from one to the
other, and a flicker is drawn from the range between (`DimmerPattern.keepsTo_draws`). Where
a pattern or a tier is unknown one such level is held. Nothing is assumed of the sine.

The statement for all dimmers is `DimmerPattern.within_limits`. It also says that the
dimmer is answered at all, which a machine that draws from a range could refuse.
-/

namespace MovingLight

/-! ## The window of a dimmer -/

/-- The window that limits leave a dimmer: their own, or their lower bound alone where they run
backwards. -/
def Limits.dimmed (l : Limits) : Window := l.window?.getD ⟨l.min, l.min, UInt8.le_refl l.min⟩

namespace Limits

variable {l : Limits}

theorem range_dimmed_of_le (h : l.min ≤ l.max) :
    l.dimmed.range = Set.Icc (l.min.toNat : ℚ) (l.max.toNat : ℚ) := by
  rw [dimmed, window?, dif_pos h]
  rfl

theorem range_dimmed_of_lt (h : l.max < l.min) : l.dimmed.range = {(l.min.toNat : ℚ)} := by
  rw [dimmed, window?, dif_neg (UInt8.not_le.mpr h)]
  exact Set.Icc_self _

variable [ExactReading]

/-- Limits that run forwards have as many steps as lie between their bounds. -/
theorem span_of_le (h : l.min ≤ l.max) : (l.span : ℚ) = l.max.toNat - l.min.toNat := by
  have forwards : (l.min.toNat : ℚ) ≤ l.max.toNat := Nat.cast_le.mpr h
  rw [span, Scalar.greater_eq_max, max_eq_left (sub_nonneg.mpr forwards)]

/-- Limits that run backwards have no steps. -/
theorem span_of_lt (h : l.max < l.min) : (l.span : ℚ) = 0 := by
  have backwards : (l.max.toNat : ℚ) ≤ l.min.toNat := Nat.cast_le.mpr h.le
  rw [span, Scalar.greater_eq_max, max_eq_right (sub_nonpos.mpr backwards)]

/-- **Every percentage is a level of the window**, also one that is off the scale. -/
theorem atPercent_mem (l : Limits) (percent : ℚ) : l.atPercent percent ∈ l.dimmed.range := by
  obtain ⟨nonneg, le_one⟩ := Scalar.clampUnit_mem (percent / 100)
  unfold atPercent
  rcases UInt8.le_or_lt l.min l.max with h | h
  · have forwards : (l.min.toNat : ℚ) ≤ l.max.toNat := Nat.cast_le.mpr h
    rw [range_dimmed_of_le h, span_of_le h]
    constructor <;> nlinarith
  · rw [range_dimmed_of_lt h, span_of_lt h, mul_zero, add_zero]
    rfl

end Limits

/-! ## Patterns -/

namespace DimmerPattern

section Exact

variable [ExactReading] {s : Set ℚ} {low high : ℚ}

/-- A flicker drawn between two levels of an interval stays in the interval; where they run backwards
it is drawn from the first alone. -/
theorem within_flicker [s.OrdConnected] (intensity : Intensity) (hlow : low ∈ s)
    (hhigh : high ∈ s) : Curve.Within s (flicker intensity low high) := by
  constructor
  · exact List.cons_ne_nil _ _
  · intro p hp
    obtain ⟨i, -, rfl⟩ := List.mem_map.mp hp
    have raised : low ≤ Scalar.greater high low := le_greater le_rfl high
    exact Set.OrdConnected.out ‹_› hlow (Scalar.greater_mem hhigh hlow) (draw_mem raised _)

/-- **What a rule draws between two levels of an interval keeps to the interval.** -/
theorem keepsTo_draws [s.OrdConnected] (rule : DimmerRule ℚ) (intensity : Intensity)
    (hlow : low ∈ s) (hhigh : high ∈ s) (cycles : ℚ) :
    (draws rule intensity low high cycles).KeepsTo s := by
  cases rule with
  | wave shape factor => exact ChannelValue.keepsTo_periodic shape hlow hhigh _
  | rise => exact ChannelValue.keepsTo_ramp hlow hhigh
  | fall => exact ChannelValue.keepsTo_ramp hhigh hlow
  | swell => exact ChannelValue.keepsTo_periodic .parabolicDown hlow hhigh 1
  | flicker => exact within_flicker intensity hlow hhigh

/-- A dimmer keeps to the window that the limits of its head leave it. -/
theorem keepsTo_within (limits : Limits) (pattern intensity : String) (levelPercent : Option ℚ) :
    (within limits pattern intensity levelPercent).KeepsTo limits.dimmed.range := by
  have level (percent : ℚ) :
      (ChannelValue.hold (Dmx.level (limits.atPercent percent))).KeepsTo limits.dimmed.range :=
    ChannelValue.keepsTo_level (limits.atPercent_mem percent)
  unfold within
  dsimp only
  split
  · exact level 100
  · split
    · exact level 0
    · split
      · exact level _
      · split
        · exact keepsTo_draws _ _ (limits.atPercent_mem _) (limits.atPercent_mem _) _
        · exact level _

/-- **Every dimmer stays within the limits of its head**, whatever the names of its pattern and its
tier and whatever its level: it is answered, at every time it lies between limits that run
forwards, and it is constantly the lower one of limits that run backwards. -/
theorem within_limits (limits : Limits) (pattern intensity : String) (levelPercent : Option ℚ) :
    ∃ v, withinChecked limits pattern intensity levelPercent = .ok v ∧
      v = within limits pattern intensity levelPercent ∧
      (limits.min ≤ limits.max →
        ∀ t, (limits.min.toNat : ℚ) ≤ v.valueAt t ∧ v.valueAt t ≤ limits.max.toNat) ∧
      (limits.max < limits.min → ∀ t, v.valueAt t = limits.min.toNat) := by
  have inside := (keepsTo_within limits pattern intensity levelPercent).valueAt_mem
  refine ⟨_, withinChecked_ok limits pattern intensity levelPercent, rfl, fun h t => ?_,
    fun h t => ?_⟩
  · have forwards := inside t
    rw [Limits.range_dimmed_of_le h] at forwards
    exact forwards
  · have backwards := inside t
    rw [Limits.range_dimmed_of_lt h] at backwards
    exact backwards

end Exact

/-- A flicker within narrow limits, and a pulse of a level off the scale within limits that run
backwards. -/
theorem within_limits_of_flicker :
    letI := ExactReading.parabolic
    let narrow : Limits := ⟨40, 90⟩
    let backwards : Limits := ⟨90, 40⟩
    (∃ v : ChannelValue ℚ, withinChecked narrow "flicker" "fast" none = .ok v ∧
      narrow.min ≤ narrow.max ∧ ∀ t, (40 : ℚ) ≤ v.valueAt t ∧ v.valueAt t ≤ 90) ∧
    (∃ v : ChannelValue ℚ, withinChecked backwards "pulse" "dramatic" (some 250) = .ok v ∧
      backwards.max < backwards.min ∧ ∀ t, v.valueAt t = 90) := by
  intro narrow backwards
  let reading := ExactReading.parabolic
  have ordered : narrow.min ≤ narrow.max := by decide
  have reversed : backwards.max < backwards.min := by decide
  obtain ⟨v, answered, -, inside, -⟩ := within_limits narrow "flicker" "fast" none
  obtain ⟨w, answered', -, -, constant⟩ := within_limits backwards "pulse" "dramatic" (some 250)
  exact ⟨⟨v, answered, ordered, inside ordered⟩, ⟨w, answered', reversed, constant reversed⟩⟩

end DimmerPattern

end MovingLight
