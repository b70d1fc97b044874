import MovingLight.Channel
import MovingLight.Pattern.Tier
import MovingLight.Random

/-!
# Dimmer patterns

A dimmer is full, off, held at a level, or follows a pattern between the two
percentages of its tier, taken within the limits of the head. A pattern or a
tier nobody knows holds the level.

The flicker is random but not arbitrary: its points come from a stream whose
seed is the tier, so a plan always flickers in the same way.
-/

namespace MovingLight

/-- What a dimmer pattern draws between the two levels of its tier. -/
inductive DimmerRule (α : Type) where
  /-- A wave, with the tier's cycles multiplied. -/
  | wave (shape : WaveShape) (cycles : α)
  | rise
  | fall
  /-- Up to the upper level and back, once. -/
  | swell
  /-- A random walk through points. -/
  | flicker

namespace DimmerPattern

variable {α : Type} [Scalar α]

def table : List (String × DimmerRule α) :=
  [("pulse", .wave .sine 1),
    ("breathe", .wave .sine 0.5),
    ("strobe", .wave .square 4),
    ("fade_in", .rise),
    ("fade_out", .fall),
    ("swell", .swell),
    ("flicker", .flicker)]

/-- The number of points of a flicker. -/
def flickerPoints : Nat := 13

/-- The flicker of a tier between two levels. -/
def flicker (intensity : Intensity) (low high : α) : Curve α :=
  let key := ChaCha.Key.ofSeed (UInt64.ofNat intensity.rank)
  (List.range flickerPoints).map fun i =>
    ⟨Scalar.evenTime i flickerPoints, draw low (Scalar.greater high low) (ChaCha.word key i)⟩

/-- What a rule draws between two levels, with the given cycles. -/
def draws (rule : DimmerRule α) (intensity : Intensity) (low high cycles : α) : ChannelValue α :=
  match rule with
  | .wave shape factor => .wave (Wave.periodic shape low high (cycles * factor))
  | .rise => .wave (Wave.ramp low high)
  | .fall => .wave (Wave.ramp high low)
  | .swell => .wave (Wave.periodic .parabolicDown low high 1)
  | .flicker => .curve (flicker intensity low high)

/-- What a dimmer pattern does within the limits of a head. The level is in
percent and full where none is given. -/
def within (limits : Limits) (pattern intensity : String) (levelPercent : Option α) :
    ChannelValue α :=
  let level (percent : α) : ChannelValue α := .hold (Dmx.level (limits.atPercent percent))
  let held := level (levelPercent.getD 100)
  if pattern = "full" then level 100
  else if pattern = "off" ∨ pattern = "blackout" then level 0
  else if isStill pattern then held
  else
    match table.lookup pattern, Intensity.ofText? intensity with
    | some rule, some tier =>
      let range : DimmerTier α := tier.dimmerTier
      draws rule tier (limits.atPercent range.minPercent) (limits.atPercent range.maxPercent)
        range.cycles
    | _, _ => held

end DimmerPattern

end MovingLight
