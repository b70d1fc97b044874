import MovingLight.Channel.Shift
import MovingLight.Formation
import MovingLight.Pattern.Dimmer
import MovingLight.Pattern.Movement
import MovingLight.Plan
import MovingLight.Rig.Target
import MovingLight.Settings

/-!
# Segments — one step of a section for the heads it is for

A step becomes one effect for each of its heads. The formation is applied to
the movement first and curves are drawn afterwards, each in the window of
its own axis, so offsets never carry a head out of its window.

Heads whose calibration agrees share their channels where the formation sets
none apart (`Segment.sharedChannels`): the first of them decides. Otherwise
each head has channels of its own (`Segment.ownChannels`).
-/

namespace MovingLight

/-- What decides the channels of a head besides its movement. -/
structure Calibration (α : Type) where
  pan : Axis
  tilt : Axis
  dimmer : Limits
  hasShutter : Bool
  resting : Option (Pose α)
  deriving DecidableEq, Repr

def Fixture.calibration {α : Type} (f : Fixture α) : Calibration α :=
  ⟨f.pan, f.tilt, f.dimmer, f.channels.shutter.isSome, f.resting⟩

namespace Step

variable {α : Type} [Scalar α]

/-- The span of a step inside its section, open at its end. -/
def window (s : Step α) (within : Span) : Nat × Nat :=
  let moment (fraction : α) : Nat :=
    within.startMs + Scalar.share (Scalar.clampUnit fraction) within.durationMs
  (moment s.start, max (moment s.finish) (moment s.start))

/-- The movement a step asks for before any formation. Without one, or at a
tier nobody knows, heads stand still. -/
def movement (s : Step α) : Movement α :=
  match s.content.movement with
  | none => .hold
  | some m =>
    match Intensity.ofText? m.intensity with
    | none => .hold
    | some tier =>
      { Movement.ofPattern m.pattern tier with amplitude := m.amplitude, frequency := m.frequency }

/-- The dimmer of a head during a step: full where nothing is said. -/
def dimmer (s : Step α) (f : Fixture α) : ChannelValue α :=
  match s.content.dimmer with
  | some d => DimmerPattern.within f.dimmer d.pattern d.intensity d.levelPercent
  | none => DimmerPattern.within f.dimmer "full" "moderate" none

def formationKind (s : Step α) : Option String := s.content.formation.map (·.kind)

def formationParams (s : Step α) : Params := (s.content.formation.map (·.params)).getD []

end Step

namespace Segment

variable {α : Type} [Scalar α]

/-- The channels of one head during a step. With curves of its own, phase
and role of its movement are drawn into pan and tilt. -/
def channels (settings : Settings α) (step : Step α) (look : Appearance α) (ownCurves : Bool)
    (f : Fixture α) (m : Movement α) : ChannelSet α :=
  let pose := Pose.resolve step.content.basePose (f.restingPose settings)
  let pan := m.onAxis .pan (f.pan.dmxOf (pose.panDeg + m.panOffsetDeg)) f.pan.window
  let tilt := m.onAxis .tilt (f.tilt.dmxOf (pose.tiltDeg + m.tiltOffsetDeg)) f.tilt.window
  let points := settings.curvePoints
  { pan := if ownCurves then pan.shifted m.phaseDeg false points else pan
    tilt := if ownCurves then tilt.shifted m.phaseDeg (m.tiltRole == some .down) points else tilt
    dimmer := step.dimmer f
    shutter := look.shutter.or (f.channels.shutter.map fun _ => .hold settings.shutterOpen)
    color := look.color
    gobo := look.gobo }

/-- The channels of each head, every one for itself. -/
def ownChannels (draw : Fixture α → ChannelSet α) (heads : List (Fixture α)) :
    List (ChannelSet α) := heads.map draw

/-- The channels of each head, those of one calibration being drawn once.
`known` holds what has been drawn already. -/
def sharedChannels (draw : Fixture α → ChannelSet α) :
    List (Calibration α × ChannelSet α) → List (Fixture α) → List (ChannelSet α)
  | _, [] => []
  | known, f :: rest =>
    match known.lookup f.calibration with
    | some c => c :: sharedChannels draw known rest
    | none =>
      let c := draw f
      c :: sharedChannels draw ((f.calibration, c) :: known) rest

/-- What an effect remembers of the step it came from. -/
def metadata (step : Step α) : List (String × Json) :=
  let base := step.movement
  [("pattern", .text base.pattern), ("intensity", .text base.intensity.name)] ++
    (step.formationKind.toList.map fun kind => ("geometry", Json.text kind)) ++
    if step.id = "" then [] else [("step", .text step.id)]

/-- The effects of a step, one for each of its heads, in stage order. A step
without duration has none, whatever it is for. -/
def render (rig : Rig α) (settings : Settings α) (within : Span) (look : Appearance α)
    (step : Step α) : Except ShowError (List (Effect α)) :=
  let (startMs, endMs) := step.window within
  if endMs ≤ startMs then .ok []
  else do
    let ids ← Target.resolve rig step.target
    let base := step.movement
    let movements := Formation.assign step.formationKind step.formationParams base ids
    let ownCurves := Formation.needsOwnCurves step.formationKind ids.length
    let draw (f : Fixture α) : ChannelSet α :=
      channels settings step look ownCurves f ((movements.lookup f.id).getD base)
    let heads := ids.filterMap rig.get?
    let sets :=
      if Formation.spreads α step.formationKind step.formationParams then ownChannels draw heads
      else sharedChannels draw [] heads
    return heads.zipWith (fun f c =>
      { fixtureId := f.id
        startMs, endMs
        channels := c
        boundary := { sectionId := within.id }
        label := within.id ++ ":" ++ base.pattern
        metadata := metadata step }) sets

end Segment

end MovingLight
