import MovingLight.Proofs.Checked.Channel
import MovingLight.Proofs.Checked.Formation
import MovingLight.Proofs.Checked.Rig
import MovingLight.Segment

/-!
# Segments, checked

A movement is drawn inside the limits of an axis, which it is handed as limits and not as
a window: nothing but the way they came about keeps them from running backwards. A flicker
is drawn from a range whose upper end is raised to the lower one, so that only an
indefinite lower end could stop it, and the lower level of a dimmer is definite however
the limits of the head run.
-/

namespace MovingLight

variable {α : Type} [Scalar α]

/-! ## Movements -/

/-- What a movement does with one axis whose centre is the given level. -/
def Movement.onAxisChecked (m : Movement α) (role : AxisRole) (center : α) (limits : Limits) :
    Checked (ChannelValue α) := do
  let center ← limits.clampChecked center
  let still := ChannelValue.hold (← Dmx.levelChecked center)
  if m.still then return still
  else
    let tier := m.intensity.movementTier
    let amplitude := Scalar.greater (m.amplitude.getD tier.amplitude) 0
    let cycles := Scalar.greater (m.frequency.getD tier.cycles) 0
    let half := amplitude * 255 / 2
    match MovementPattern.rule? m.pattern role with
    | none => return still
    | some .hold => return still
    | some .ramp =>
      let low ← limits.clampChecked (center - half)
      let high ← limits.clampChecked (center + half)
      return .wave (Wave.ramp low high)
    | some (.wave shape cycleFactor phasePercent width) =>
      let reach := half * width
      let low ← limits.clampChecked (center - reach)
      let high ← limits.clampChecked (center + reach)
      if Scalar.abs (high - low) < Scalar.epsilon then return still
      else
        return .wave
          { Wave.periodic shape low high (cycles * cycleFactor) with p1 := phasePercent }

@[simp]
theorem Movement.onAxisChecked_ok [Scalar.OrderLaws α] (m : Movement α) (role : AxisRole)
    (center : α) (w : Window) :
    m.onAxisChecked role center w.limits = .ok (m.onAxis role center w) := by
  unfold Movement.onAxisChecked Movement.onAxis
  simp only [Window.clampChecked_ok, Dmx.levelChecked_ok, Checked.ok_bind, Checked.pure_eq_ok]
  split
  case isTrue => rfl
  case isFalse =>
    cases (MovementPattern.rule? m.pattern role : Option (AxisRule α)) with
    | none => rfl
    | some rule =>
      cases rule with
      | hold => rfl
      | ramp => rfl
      | wave shape cycleFactor phasePercent width => simp only [Checked.ite_ok]

/-! ## Dimmers -/

namespace DimmerPattern

/-- The flicker of a tier between two levels. -/
def flickerChecked (intensity : Intensity) (low high : α) : Checked (Curve α) :=
  let key := ChaCha.Key.ofSeed (UInt64.ofNat intensity.rank)
  (List.range flickerPoints).mapM fun i => do
    return ⟨Scalar.evenTime i flickerPoints,
      ← Checked.draw low (Scalar.greater high low) (ChaCha.word key i)⟩

/-- What a rule draws between two levels, with the given cycles. -/
def drawsChecked (rule : DimmerRule α) (intensity : Intensity) (low high cycles : α) :
    Checked (ChannelValue α) :=
  match rule with
  | .wave shape factor => .ok (.wave (Wave.periodic shape low high (cycles * factor)))
  | .rise => .ok (.wave (Wave.ramp low high))
  | .fall => .ok (.wave (Wave.ramp high low))
  | .swell => .ok (.wave (Wave.periodic .parabolicDown low high 1))
  | .flicker => do return .curve (← flickerChecked intensity low high)

/-- What a dimmer pattern does within the limits of a head. -/
def withinChecked (limits : Limits) (pattern intensity : String) (levelPercent : Option α) :
    Checked (ChannelValue α) := do
  let level (percent : α) : Checked (ChannelValue α) := do
    return .hold (← Dmx.levelChecked (← limits.atPercentChecked percent))
  let held ← level (levelPercent.getD 100)
  if pattern = "full" then level 100
  else if pattern = "off" ∨ pattern = "blackout" then level 0
  else if isStill pattern then return held
  else
    match table.lookup pattern, Intensity.ofText? intensity with
    | some rule, some tier =>
      let range : DimmerTier α := tier.dimmerTier
      let low ← limits.atPercentChecked range.minPercent
      let high ← limits.atPercentChecked range.maxPercent
      drawsChecked rule tier low high range.cycles
    | _, _ => return held

variable [Scalar.OrderLaws α]

/-- A range whose upper end is raised to a definite lower one does not run backwards. -/
theorem le_greater {low : α} (definite : low ≤ low) (high : α) :
    low ≤ Scalar.greater high low := by
  rw [Scalar.greater, if_pos definite]
  split
  case isTrue h => exact Scalar.OrderLaws.le_of_lt low high h
  case isFalse => exact definite

theorem drawsChecked_ok (rule : DimmerRule α) (intensity : Intensity) {low : α}
    (definite : low ≤ low) (high cycles : α) :
    drawsChecked rule intensity low high cycles = .ok (draws rule intensity low high cycles) := by
  cases rule with
  | flicker =>
    simp [drawsChecked, draws, flickerChecked, flicker,
      Checked.draw_ok (le_greater definite high)]
  | wave shape factor => rfl
  | rise => rfl
  | fall => rfl
  | swell => rfl

@[simp]
theorem withinChecked_ok (limits : Limits) (pattern intensity : String)
    (levelPercent : Option α) :
    withinChecked limits pattern intensity levelPercent =
      .ok (within limits pattern intensity levelPercent) := by
  unfold withinChecked within
  simp only [Limits.atPercentChecked_ok, Dmx.levelChecked_ok, Checked.ok_bind, Checked.pure_eq_ok]
  split
  case isTrue => rfl
  case isFalse =>
    split
    case isTrue => rfl
    case isFalse =>
      split
      case isTrue => rfl
      case isFalse =>
        cases (table.lookup pattern : Option (DimmerRule α)) with
        | none => rfl
        | some rule =>
          cases Intensity.ofText? intensity with
          | none => rfl
          | some tier =>
            exact drawsChecked_ok rule tier (Scalar.OrderLaws.low_le_self limits tier) _ _

end DimmerPattern

/-! ## Steps -/

namespace Step

/-- The span of a step inside its section, open at its end. -/
def windowChecked (s : Step α) (within : Span) : Checked (Nat × Nat) := do
  let moment (fraction : α) : Checked Nat := do
    return within.startMs + Scalar.share (← Checked.clampUnit fraction) within.durationMs
  let start ← moment s.start
  let finish ← moment s.finish
  return (start, max finish start)

/-- The dimmer of a head during a step: full where nothing is said. -/
def dimmerChecked (s : Step α) (f : Fixture α) : Checked (ChannelValue α) :=
  match s.content.dimmer with
  | some d => DimmerPattern.withinChecked f.dimmer d.pattern d.intensity d.levelPercent
  | none => DimmerPattern.withinChecked f.dimmer "full" "moderate" none

variable [Scalar.OrderLaws α]

@[simp]
theorem windowChecked_ok (s : Step α) (within : Span) :
    s.windowChecked within = .ok (s.window within) := by
  simp [windowChecked, window]

@[simp]
theorem dimmerChecked_ok (s : Step α) (f : Fixture α) : s.dimmerChecked f = .ok (s.dimmer f) := by
  unfold dimmerChecked dimmer
  cases s.content.dimmer with
  | none => exact DimmerPattern.withinChecked_ok _ _ _ _
  | some d => exact DimmerPattern.withinChecked_ok _ _ _ _

end Step

/-! ## Segments -/

namespace Segment

/-- The channels of one head during a step. -/
def channelsChecked (settings : Settings α) (step : Step α) (look : Appearance α)
    (ownCurves : Bool) (f : Fixture α) (m : Movement α) : Checked (ChannelSet α) := do
  let pose := Pose.resolve step.content.basePose (f.restingPose settings)
  let panCenter ← f.pan.dmxOfChecked (pose.panDeg + m.panOffsetDeg)
  let tiltCenter ← f.tilt.dmxOfChecked (pose.tiltDeg + m.tiltOffsetDeg)
  let pan ← m.onAxisChecked .pan panCenter f.pan.limits
  let tilt ← m.onAxisChecked .tilt tiltCenter f.tilt.limits
  let points := settings.curvePoints
  let ownPan : Checked (ChannelValue α) :=
    if ownCurves then pan.shiftedChecked m.phaseDeg false points else .ok pan
  let ownTilt : Checked (ChannelValue α) :=
    if ownCurves then tilt.shiftedChecked m.phaseDeg (m.tiltRole == some .down) points
    else .ok tilt
  return {
    pan := ← ownPan
    tilt := ← ownTilt
    dimmer := ← step.dimmerChecked f
    shutter := look.shutter.or (f.channels.shutter.map fun _ => .hold settings.shutterOpen)
    color := look.color
    gobo := look.gobo }

/-- The channels of each head, those of one calibration being drawn once. -/
def sharedChannelsChecked (draw : Fixture α → Checked (ChannelSet α)) :
    List (Calibration α × ChannelSet α) → List (Fixture α) → Checked (List (ChannelSet α))
  | _, [] => .ok []
  | known, f :: rest =>
    match known.lookup f.calibration with
    | some c => do return c :: (← sharedChannelsChecked draw known rest)
    | none => do
      let c ← draw f
      return c :: (← sharedChannelsChecked draw ((f.calibration, c) :: known) rest)

/-- The effects of a step, one for each of its heads, in stage order. -/
def renderChecked (rig : Rig α) (settings : Settings α) (within : Span) (look : Appearance α)
    (step : Step α) : Checked (Except ShowError (List (Effect α))) := do
  let (startMs, endMs) ← step.windowChecked within
  if endMs ≤ startMs then return .ok []
  else
    match ← Target.resolveChecked rig step.target with
    | .error e => return .error e
    | .ok ids =>
      let base := step.movement
      let movements ← Formation.assignChecked step.formationKind step.formationParams base ids
      let ownCurves := Formation.needsOwnCurves step.formationKind ids.length
      let draw (f : Fixture α) : Checked (ChannelSet α) :=
        channelsChecked settings step look ownCurves f ((movements.lookup f.id).getD base)
      let heads := ids.filterMap rig.get?
      let apart ← Formation.spreadsChecked α step.formationKind step.formationParams
      let sets : Checked (List (ChannelSet α)) :=
        if apart then heads.mapM draw else sharedChannelsChecked draw [] heads
      return .ok <| heads.zipWith (fun f c =>
        { fixtureId := f.id
          startMs, endMs
          channels := c
          boundary := { sectionId := within.id }
          label := within.id ++ ":" ++ base.pattern
          metadata := metadata step }) (← sets)

@[simp]
theorem sharedChannelsChecked_ok (draw : Fixture α → ChannelSet α)
    (known : List (Calibration α × ChannelSet α)) (heads : List (Fixture α)) :
    sharedChannelsChecked (fun f => .ok (draw f)) known heads =
      .ok (sharedChannels draw known heads) := by
  induction heads generalizing known with
  | nil => rfl
  | cons f rest ih =>
    rw [sharedChannelsChecked, sharedChannels]
    cases known.lookup f.calibration with
    | none => simp [ih]
    | some c => simp [ih]

variable [Scalar.OrderLaws α]

@[simp]
theorem channelsChecked_ok (settings : Settings α) (step : Step α) (look : Appearance α)
    (ownCurves : Bool) (f : Fixture α) (m : Movement α) :
    channelsChecked settings step look ownCurves f m =
      .ok (channels settings step look ownCurves f m) := by
  simp [channelsChecked, channels, Axis.limits_eq]

/-- **A step is rendered without a fault**, with the outcome it has. -/
@[simp]
theorem renderChecked_ok (rig : Rig α) (settings : Settings α) (within : Span)
    (look : Appearance α) (step : Step α) :
    renderChecked rig settings within look step = .ok (render rig settings within look step) := by
  unfold renderChecked render
  rw [Step.windowChecked_ok, Checked.ok_bind]
  obtain ⟨startMs, endMs⟩ := step.window within
  dsimp only
  split
  case isTrue => rfl
  case isFalse =>
    rw [Target.resolveChecked_ok, Checked.ok_bind]
    cases Target.resolve rig step.target with
    | error e => rfl
    | ok ids =>
      simp [ownChannels]

end Segment

end MovingLight
