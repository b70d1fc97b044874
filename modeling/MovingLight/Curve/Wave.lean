import MovingLight.Scalar

/-!
# Waves — curves given by a shape and its parameters

The player of a show knows nine shapes by name and draws them itself. A
`Wave` names the shape, the two levels it runs between and the player's four
parameters; `sampleWithPhase` is the preview of what the player draws, used
for the ends of an effect and wherever a wave has to be written out in
points.

The parameters are read on a scale to one hundred:

* `p1`: the level a ramp starts from, or the phase of a periodic shape;
* `p2`: the level a ramp ends at, or the amplitude of a periodic shape;
* `p3`: cycles in one effect, times ten;
* `p4`: the level of the middle line.
-/

namespace MovingLight

/-- The shapes a player draws. -/
inductive WaveShape where
  | flat
  | ramp
  | rampUpDown
  | sine
  | absSine
  | sawTooth
  | square
  | parabolicDown
  | parabolicUp
  deriving DecidableEq, Repr

namespace WaveShape

/-- Every shape with the name it has in plans. -/
def names : List (String × WaveShape) :=
  [("flat", flat), ("ramp", ramp), ("ramp_up_down", rampUpDown), ("sine", sine),
    ("abs_sine", absSine), ("saw_tooth", sawTooth), ("square", square),
    ("parabolic_down", parabolicDown), ("parabolic_up", parabolicUp)]

/-- The name in plans. -/
def name : WaveShape → String
  | flat => "flat"
  | ramp => "ramp"
  | rampUpDown => "ramp_up_down"
  | sine => "sine"
  | absSine => "abs_sine"
  | sawTooth => "saw_tooth"
  | square => "square"
  | parabolicDown => "parabolic_down"
  | parabolicUp => "parabolic_up"

/-- The name the player knows. -/
def playerName : WaveShape → String
  | flat => "Flat"
  | ramp => "Ramp"
  | rampUpDown => "Ramp Up/Down"
  | sine => "Sine"
  | absSine => "Abs Sine"
  | sawTooth => "Saw Tooth"
  | square => "Square"
  | parabolicDown => "Parabolic Down"
  | parabolicUp => "Parabolic Up"

end WaveShape

/-- A shape between two levels, with the player's parameters. -/
structure Wave (α : Type) where
  shape : WaveShape
  min : α
  max : α
  p1 : α
  p2 : α
  p3 : α
  p4 : α
  deriving DecidableEq, Repr

namespace Wave

variable {α : Type} [Scalar α]

/-- A shape that repeats `cycles` times between two levels, in either order. -/
def periodic (shape : WaveShape) (low high cycles : α) : Wave α where
  shape
  min := Scalar.lesser low high
  max := Scalar.greater low high
  p1 := 0
  p2 := 100
  p3 := Scalar.greater (cycles * 10) 0
  p4 := 50

/-- A straight run from one level to another. -/
def ramp (start finish : α) : Wave α :=
  let min := Scalar.lesser start finish
  let max := Scalar.greater start finish
  let span := Scalar.greater (max - min) Scalar.epsilon
  { shape := .ramp, min, max
    p1 := (start - min) / span * 100
    p2 := (finish - min) / span * 100
    p3 := 0
    p4 := 50 }

/-- How often the shape repeats in one effect. -/
def cycles (w : Wave α) : α := w.p3 / 10

/-- The height of the shape at a time, on a scale from zero to one that it
may overrun. `turns` is the time in cycles, phase included. -/
def height (w : Wave α) (t turns : α) : α :=
  match w.shape with
  | .flat => w.p4 / 100
  | .ramp => Scalar.between (w.p1 / 100) (w.p2 / 100) t
  | .rampUpDown => 1 - Scalar.abs (2 * t - 1)
  | .sine => w.p4 / 100 + 0.5 * (w.p2 / 100) * Scalar.sin (2 * Scalar.pi * turns)
  | .absSine => Scalar.abs (Scalar.sin (Scalar.pi * turns))
  | .sawTooth => Scalar.emod turns 1
  | .square => if Scalar.emod turns 1 < 0.5 then 1 else 0
  | .parabolicDown => 1 - (2 * t - 1) * (2 * t - 1)
  | .parabolicUp => (2 * t - 1) * (2 * t - 1)

/-- The level at a time, the shape being moved ahead by a phase in degrees. -/
def sampleWithPhase (w : Wave α) (t phaseDeg : α) : α :=
  let t := Scalar.clampUnit t
  let turns := w.cycles * t + w.p1 / 100 + phaseDeg / 360
  w.min + Scalar.clampUnit (w.height t turns) * (w.max - w.min)

/-- The level at a time. -/
def sample (w : Wave α) (t : α) : α := w.sampleWithPhase t 0

end Wave

end MovingLight
