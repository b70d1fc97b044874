import MovingLight.Curve.Monotone
import MovingLight.Curve.Wave
import MovingLight.Dmx

/-!
# Channels — what a head does during one effect

A channel either holds a level, follows a wave the player draws, or runs
along a point curve. A `ChannelSet` is a whole head: pan, tilt and dimmer
always, shutter, colour and gobo where something is said about them.

`truncated` is the one operation that changes the meaning of time: it keeps
the leading part of a channel and stretches it over a shorter effect. A
wave cannot be cut short by its parameters, so it is written out in points.
-/

namespace MovingLight

/-- What one channel does during one effect. -/
inductive ChannelValue (α : Type) where
  /-- One level throughout. -/
  | hold (level : UInt8)
  /-- A shape the player draws. -/
  | wave (w : Wave α)
  /-- Values at points in time. -/
  | curve (c : Curve α)
  deriving DecidableEq, Repr

namespace ChannelValue

variable {α : Type} [Scalar α]

/-- The channel is left to the player. -/
def isWave : ChannelValue α → Bool
  | wave _ => true
  | _ => false

/-- The value at a time between zero and one. -/
def valueAt (v : ChannelValue α) (t : α) : α :=
  match v with
  | hold level => (level.toNat : α)
  | wave w => w.sample t
  | curve c => c.valueAt t

/-- The value at the very start of the effect. -/
def startValue (v : ChannelValue α) : α := v.valueAt 0

/-- The value at the very end of the effect. -/
def endValue (v : ChannelValue α) : α := v.valueAt 1

/-- The leading part of a channel up to the time `ratio`, stretched over the
whole effect. A wave is written out in `count` points. -/
def truncated (v : ChannelValue α) (ratio : α) (count : Nat) : ChannelValue α :=
  let ratio := Scalar.clampUnit ratio
  if 1 - 0.000001 ≤ ratio then v
  else
    match v with
    | hold level => hold level
    | wave w => curve (Curve.sampled count fun t => w.sample (t * ratio))
    | curve c => curve (c.truncated ratio)

end ChannelValue

/-- A colour: a position of the wheel, or a mixture. -/
inductive Color (α : Type) where
  | wheel (v : ChannelValue α)
  | rgb (red green blue : UInt8)
  deriving DecidableEq, Repr

/-- Every channel of one head during one effect. -/
structure ChannelSet (α : Type) where
  pan : ChannelValue α
  tilt : ChannelValue α
  dimmer : ChannelValue α
  shutter : Option (ChannelValue α) := none
  color : Option (Color α) := none
  gobo : Option (ChannelValue α) := none
  deriving DecidableEq, Repr

/-- A change of the value behind a colour; a mixture has none. -/
def Color.map {α : Type} (f : ChannelValue α → ChannelValue α) : Color α → Color α
  | wheel v => wheel (f v)
  | rgb r g b => rgb r g b

namespace ChannelSet

variable {α : Type}

/-- A change of every value in the set. -/
def map (f : ChannelValue α → ChannelValue α) (s : ChannelSet α) : ChannelSet α where
  pan := f s.pan
  tilt := f s.tilt
  dimmer := f s.dimmer
  shutter := s.shutter.map f
  color := s.color.map (Color.map f)
  gobo := s.gobo.map f

/-- Every value in the set. -/
def values (s : ChannelSet α) : List (ChannelValue α) :=
  [s.pan, s.tilt, s.dimmer] ++ s.shutter.toList ++ s.gobo.toList ++
    match s.color with
    | some (.wheel v) => [v]
    | _ => []

variable [Scalar α]

/-- Some channel is left to the player. -/
def hasWave (s : ChannelSet α) : Bool := s.values.any ChannelValue.isWave

/-- Every channel cut to its leading part. -/
def truncated (s : ChannelSet α) (ratio : α) (count : Nat) : ChannelSet α :=
  s.map fun v => v.truncated ratio count

end ChannelSet

end MovingLight
