import MovingLight.Channel

/-!
# Appearance — shutter, colour and gobo of a section

A plan dresses a section once and every effect in it wears the same. What a
plan writes (`AppearanceValue`) is not yet a channel: a mixture of colours
only makes sense for the colour, and a wave is given by its shape, its two
levels and its cycles.
-/

namespace MovingLight

/-- A curve as a plan writes it. -/
inductive CurveSpec (α : Type) where
  | points (c : Curve α)
  | wave (shape : WaveShape) (min max cycles : α)
  deriving DecidableEq, Repr

/-- What a plan writes for shutter, colour or gobo. -/
inductive AppearanceValue (α : Type) where
  | level (v : UInt8)
  | rgb (red green blue : UInt8)
  | curve (spec : CurveSpec α)
  deriving DecidableEq, Repr

/-- The appearance of a section as a plan writes it. -/
structure AppearanceSpec (α : Type) where
  shutter : Option (AppearanceValue α) := none
  color : Option (AppearanceValue α) := none
  gobo : Option (AppearanceValue α) := none
  deriving DecidableEq, Repr

/-- The appearance of a section as channels. -/
structure Appearance (α : Type) where
  shutter : Option (ChannelValue α) := none
  color : Option (Color α) := none
  gobo : Option (ChannelValue α) := none
  deriving DecidableEq, Repr

variable {α : Type} [Scalar α]

/-- The channel a curve stands for. A ramp runs from its first level to its
second, every other shape repeats between them. -/
def CurveSpec.toChannel : CurveSpec α → ChannelValue α
  | points c => .curve c
  | wave .ramp min max _ => .wave (Wave.ramp min max)
  | wave shape min max cycles => .wave (Wave.periodic shape min max cycles)

namespace AppearanceValue

/-- The channel a value stands for; a mixture of colours is none. -/
def toChannel? : AppearanceValue α → Option (ChannelValue α)
  | level v => some (.hold v)
  | curve spec => some spec.toChannel
  | rgb .. => none

/-- The colour a value stands for. -/
def toColor : AppearanceValue α → Color α
  | rgb r g b => .rgb r g b
  | level v => .wheel (.hold v)
  | curve spec => .wheel spec.toChannel

end AppearanceValue

/-- The channels of a section's appearance; nothing where nothing is said. -/
def Appearance.resolve (spec : Option (AppearanceSpec α)) : Appearance α :=
  match spec with
  | none => {}
  | some s =>
    { shutter := s.shutter.bind AppearanceValue.toChannel?
      color := s.color.map AppearanceValue.toColor
      gobo := s.gobo.bind AppearanceValue.toChannel? }

end MovingLight
