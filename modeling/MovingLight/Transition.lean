import MovingLight.Effect
import MovingLight.Settings

/-!
# Transitions — what a head does between two effects

An `Anchor` is what a head shows at one moment. A `Passage` is an interval to
be filled from one anchor to another; `Passage.effects` fills it in one of
four ways:

* a snap puts nothing in between;
* a crossfade runs every channel straight from the first anchor to the
  second;
* a fade through black dims the light where it is, changes position in the
  dark and brings the light up again;
* a gap fill goes dark on the way to the resting pose, rests, and moves on.

The last two have three phases. A phase without duration is left out, and
the phases that remain follow one another without a seam.
-/

namespace MovingLight

/-- What a head shows at one moment. -/
structure Anchor (α : Type) where
  pan : α
  tilt : α
  dimmer : α
  shutter : Option α
  color : Option (Color α)
  gobo : Option UInt8
  deriving DecidableEq, Repr

namespace Anchor

variable {α : Type} [Scalar α]

/-- What a channel set shows at a time of its effect. -/
def moment (t : α) (c : ChannelSet α) : Anchor α where
  pan := c.pan.valueAt t
  tilt := c.tilt.valueAt t
  dimmer := c.dimmer.valueAt t
  shutter := c.shutter.map (·.valueAt t)
  color := c.color.map (Color.map fun v => .hold (Dmx.level (v.valueAt t)))
  gobo := c.gobo.map fun v => Dmx.level (v.valueAt t)

/-- What an effect shows at its end. -/
def endOf (c : ChannelSet α) : Anchor α := .moment 1 c

/-- What an effect shows at its start. -/
def startOf (c : ChannelSet α) : Anchor α := .moment 0 c

/-- The same position with the light off. -/
def dark (a : Anchor α) (shutterClosed : UInt8) : Anchor α :=
  { a with
    dimmer := 0
    shutter := a.shutter.map fun _ => (shutterClosed.toNat : α)
    color := none
    gobo := none }

end Anchor

/-- The resting pose of a head with the light off. -/
def Fixture.darkHome {α : Type} [Scalar α] (f : Fixture α) (settings : Settings α) : Anchor α :=
  let pose := f.restingPose settings
  { pan := f.pan.dmxOf pose.panDeg
    tilt := f.tilt.dmxOf pose.tiltDeg
    dimmer := 0
    shutter := f.channels.shutter.map fun _ => (settings.shutterClosed.toNat : α)
    color := none
    gobo := none }

/-- An interval to be filled from one anchor to another. -/
structure Passage (α : Type) where
  fixtureId : String
  sectionId : String
  gapKind : Option GapKind
  startMs : Nat
  endMs : Nat
  source : Anchor α
  target : Anchor α
  /-- Where a head rests on the way, with the light off. -/
  home : Anchor α
  split : GapSplit α
  shutterClosed : UInt8
  deriving DecidableEq, Repr

namespace Passage

variable {α : Type} [Scalar α]

/-- A straight run between two values; values less than half a level apart
hold the second. -/
def run (source target : α) : ChannelValue α :=
  if Scalar.abs (source - target) < 0.5 then .hold (Dmx.level target)
  else .curve (Curve.linear (Scalar.clamp 0 255 source) (Scalar.clamp 0 255 target))

/-- A straight run of the shutter, where either side has one. -/
def shutterRun : Option α → Option α → Option (ChannelValue α)
  | some a, some b => some (run a b)
  | some v, none => some (.hold (Dmx.level v))
  | none, some v => some (.hold (Dmx.level v))
  | none, none => none

/-- The channels of a straight run from one anchor to another. Colour and
gobo do not run: those of the first anchor stay, or else the second's come. -/
def channels (source target : Anchor α) : ChannelSet α where
  pan := run source.pan target.pan
  tilt := run source.tilt target.tilt
  dimmer := run source.dimmer target.dimmer
  shutter := shutterRun source.shutter target.shutter
  color := source.color.or target.color
  gobo := (source.gobo.or target.gobo).map .hold

/-- The effect of one phase, from one time to another and one anchor to
another; none where there is no time for it. -/
def phase? (p : Passage α) (name : String) (startMs endMs : Nat) (source target : Anchor α) :
    Option (Effect α) :=
  if endMs ≤ startMs then none
  else some {
    fixtureId := p.fixtureId
    startMs, endMs
    channels := channels source target
    boundary := { sectionId := p.sectionId, isGapFill := true, gapKind := p.gapKind }
    label := "gap_fill:" ++ name
    metadata := [("phase", .text name)] }

/-- The times at which the second and the third phase start, neither after
the end. -/
def splitPoints (p : Passage α) : Nat × Nat :=
  let split := p.split.normalized
  let duration : α := ((p.endMs - p.startMs : Nat) : α)
  let first := p.startMs + Scalar.toNat (Scalar.round (duration * split.rampOut))
  let second := first + Scalar.toNat (Scalar.round (duration * split.hold))
  (min first p.endMs, min second p.endMs)

/-- A straight run over the whole passage. -/
def crossfade (p : Passage α) : List (Effect α) :=
  (p.phase? "crossfade" p.startMs p.endMs p.source p.target).toList

/-- Three phases with the position changed in the dark. -/
def fadeThroughBlack (p : Passage α) : List (Effect α) :=
  let (a, b) := p.splitPoints
  let darkSource := p.source.dark p.shutterClosed
  let darkTarget := p.target.dark p.shutterClosed
  (p.phase? "fade_out" p.startMs a p.source darkSource).toList ++
    (p.phase? "blackout" a b darkTarget darkTarget).toList ++
    (p.phase? "fade_in" b p.endMs darkTarget p.target).toList

/-- Three phases by way of the resting pose. -/
def byWayOfHome (p : Passage α) : List (Effect α) :=
  let (a, b) := p.splitPoints
  (p.phase? "ramp_to_home" p.startMs a p.source p.home).toList ++
    (p.phase? "hold" a b p.home p.home).toList ++
    (p.phase? "ramp_to_next" b p.endMs p.home p.target).toList

/-- The effects that fill a passage, in order. -/
def effects (p : Passage α) : TransitionMode → List (Effect α)
  | .snap => []
  | .crossfade => p.crossfade
  | .fadeThroughBlack => p.fadeThroughBlack
  | .gapFill => p.byWayOfHome

end Passage

end MovingLight
