import MovingLight.Channel
import MovingLight.Pattern.Tier

/-!
# Movement patterns — waves for pan and tilt

A pattern says for each axis whether it holds, swings in a wave or runs once
from one side to the other. Its swing is centred on a level and confined to
the window of the axis, each side by itself; a pattern nobody knows, and a
swing without width, hold the centre.
-/

namespace MovingLight

/-- The two axes of a head. -/
inductive AxisRole where
  | pan
  | tilt
  deriving DecidableEq, Repr

/-- What a pattern does with one axis. -/
inductive AxisRule (α : Type) where
  | hold
  /-- A wave, with the tier's cycles and width multiplied and a phase in
  percent of a cycle. -/
  | wave (shape : WaveShape) (cycles phasePercent width : α)
  /-- One run from the lower to the upper side. -/
  | ramp

namespace MovementPattern

variable {α : Type} [Scalar α]

/-- The rules for pan and tilt. -/
def table : List (String × AxisRule α × AxisRule α) :=
  [("sweep_lr", .wave .sine 1 0 1, .hold),
    ("tilt_bob", .hold, .wave .sine 1 0 1),
    ("circle", .wave .sine 1 0 1, .wave .sine 1 25 1),
    ("figure_eight", .wave .sine 1 0 1, .wave .sine 2 0 0.5),
    ("pendulum", .wave .sine 1 0 1, .wave .absSine 2 0 0.25),
    ("ramp_lr", .ramp, .hold),
    ("zigzag", .wave .sawTooth 1 0 1, .wave .square 2 0 0.5)]

/-- What a pattern does with an axis, if it is known. -/
def rule? (pattern : String) (role : AxisRole) : Option (AxisRule α) :=
  (table.lookup pattern).map fun rules =>
    match role with
    | .pan => rules.1
    | .tilt => rules.2

/-- One level, inside a window. -/
def holdAt (window : Window) (center : α) : ChannelValue α :=
  .hold (Dmx.level (window.clamp center))

end MovementPattern

/-- What a movement does with one axis whose centre is the given level. The
amplitude is a fraction of all 255 steps. -/
def Movement.onAxis {α : Type} [Scalar α] (m : Movement α) (role : AxisRole) (center : α)
    (window : Window) : ChannelValue α :=
  let center := window.clamp center
  let still := ChannelValue.hold (Dmx.level center)
  if m.still then still
  else
    let tier := m.intensity.movementTier
    let amplitude := Scalar.greater (m.amplitude.getD tier.amplitude) 0
    let cycles := Scalar.greater (m.frequency.getD tier.cycles) 0
    let half := amplitude * 255 / 2
    match MovementPattern.rule? m.pattern role with
    | none => still
    | some .hold => still
    | some .ramp => .wave (Wave.ramp (window.clamp (center - half)) (window.clamp (center + half)))
    | some (.wave shape cycleFactor phasePercent width) =>
      let reach := half * width
      let low := window.clamp (center - reach)
      let high := window.clamp (center + reach)
      if Scalar.abs (high - low) < Scalar.epsilon then still
      else .wave { Wave.periodic shape low high (cycles * cycleFactor) with p1 := phasePercent }

/-- What a pattern does with one axis at the tier a planner names. A tier
nobody knows holds the centre. -/
def MovementPattern.onAxis {α : Type} [Scalar α] (pattern : String) (role : AxisRole)
    (intensity : String) (center : α) (window : Window) : ChannelValue α :=
  if isStill pattern then holdAt window center
  else
    match Intensity.ofText? intensity with
    | none => holdAt window center
    | some tier => (Movement.ofPattern pattern tier).onAxis role center window

end MovingLight
