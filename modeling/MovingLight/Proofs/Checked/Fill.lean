import MovingLight.Proofs.Checked.Channel
import MovingLight.Timeline.Fill

/-!
# Filling, checked

An effect is cut short channel by channel, and an anchor is read off its channels one by
one. A run between two anchors is limited to all levels, since an anchor may lie outside
them: a point curve of a plan has whatever values it is given.
-/

namespace MovingLight

variable {α : Type} [Scalar α]

/-! ## Overlaps -/

/-- The effect cut short at a time inside it, its channels with it. -/
def Effect.cutAtChecked (e : Effect α) (time count : Nat) : Checked (Effect α) := do
  let ratio : α := ((time - e.startMs : Nat) : α) / ((e.endMs - e.startMs : Nat) : α)
  let channels ← e.channels.mapChecked fun v => v.truncatedChecked ratio count
  return { e with endMs := time, channels := channels }

namespace Timeline

/-- Makes room for an effect from a given time on. -/
def roomAtChecked (time count : Nat) : List (Effect α) → Checked (List (Effect α))
  | [] => .ok []
  | last :: rest =>
    if last.endMs ≤ time then .ok (last :: rest)
    else if time ≤ last.startMs then roomAtChecked time count rest
    else do return (← last.cutAtChecked time count) :: rest

/-- Lays out one more effect. -/
def layChecked (count : Nat) (laid : List (Effect α)) (e : Effect α) :
    Checked (List (Effect α)) :=
  if e.endMs ≤ e.startMs then .ok laid
  else do return e :: (← roomAtChecked e.startMs count laid)

/-- The effects of one head without overlaps, in order. -/
def resolveOverlapsChecked (count : Nat) (effects : List (Effect α)) :
    Checked (List (Effect α)) := do
  return (← (sorted effects).foldlM (layChecked count) []).reverse

end Timeline

/-! ## Anchors and passages -/

/-- What a channel set shows at a time of its effect. -/
def Anchor.momentChecked (t : α) (c : ChannelSet α) : Checked (Anchor α) := do
  let level (v : ChannelValue α) : Checked UInt8 := do Dmx.levelChecked (← v.valueAtChecked t)
  return {
    pan := ← c.pan.valueAtChecked t
    tilt := ← c.tilt.valueAtChecked t
    dimmer := ← c.dimmer.valueAtChecked t
    shutter := ← c.shutter.mapM fun v => v.valueAtChecked t
    color := ← c.color.mapM fun color => color.mapChecked fun v => do return .hold (← level v)
    gobo := ← c.gobo.mapM level }

/-- The resting pose of a head with the light off. -/
def Fixture.darkHomeChecked (f : Fixture α) (settings : Settings α) : Checked (Anchor α) := do
  let pose := f.restingPose settings
  return {
    pan := ← f.pan.dmxOfChecked pose.panDeg
    tilt := ← f.tilt.dmxOfChecked pose.tiltDeg
    dimmer := 0
    shutter := f.channels.shutter.map fun _ => (settings.shutterClosed.toNat : α)
    color := none
    gobo := none }

namespace Passage

/-- A straight run between two values. -/
def runChecked (source target : α) : Checked (ChannelValue α) :=
  if Scalar.abs (source - target) < 0.5 then do return .hold (← Dmx.levelChecked target)
  else do
    return .curve
      (Curve.linear (← Checked.clamp 0 255 source) (← Checked.clamp 0 255 target))

/-- A straight run of the shutter, where either side has one. -/
def shutterRunChecked : Option α → Option α → Checked (Option (ChannelValue α))
  | some a, some b => do return some (← runChecked a b)
  | some v, none => do return some (.hold (← Dmx.levelChecked v))
  | none, some v => do return some (.hold (← Dmx.levelChecked v))
  | none, none => .ok none

/-- The channels of a straight run from one anchor to another. -/
def channelsChecked (source target : Anchor α) : Checked (ChannelSet α) := do
  return {
    pan := ← runChecked source.pan target.pan
    tilt := ← runChecked source.tilt target.tilt
    dimmer := ← runChecked source.dimmer target.dimmer
    shutter := ← shutterRunChecked source.shutter target.shutter
    color := source.color.or target.color
    gobo := (source.gobo.or target.gobo).map .hold }

/-- The effect of one phase; none where there is no time for it. -/
def phaseChecked? (p : Passage α) (name : String) (startMs endMs : Nat)
    (source target : Anchor α) : Checked (Option (Effect α)) :=
  if endMs ≤ startMs then .ok none
  else do
    return some {
      fixtureId := p.fixtureId
      startMs, endMs
      channels := ← channelsChecked source target
      boundary := { sectionId := p.sectionId, isGapFill := true, gapKind := p.gapKind }
      label := "gap_fill:" ++ name
      metadata := [("phase", .text name)] }

/-- The effects that fill a passage, in order. -/
def effectsChecked (p : Passage α) : TransitionMode → Checked (List (Effect α))
  | .snap => .ok []
  | .crossfade => do
    return (← p.phaseChecked? "crossfade" p.startMs p.endMs p.source p.target).toList
  | .fadeThroughBlack => do
    let (a, b) := p.splitPoints
    let darkSource := p.source.dark p.shutterClosed
    let darkTarget := p.target.dark p.shutterClosed
    return (← p.phaseChecked? "fade_out" p.startMs a p.source darkSource).toList ++
      (← p.phaseChecked? "blackout" a b darkTarget darkTarget).toList ++
      (← p.phaseChecked? "fade_in" b p.endMs darkTarget p.target).toList
  | .gapFill => do
    let (a, b) := p.splitPoints
    return (← p.phaseChecked? "ramp_to_home" p.startMs a p.source p.home).toList ++
      (← p.phaseChecked? "hold" a b p.home p.home).toList ++
      (← p.phaseChecked? "ramp_to_next" b p.endMs p.home p.target).toList

end Passage

/-! ## Filling -/

namespace Timeline

/-- The way across a gap: a mode, the anchors on both sides and the kind of gap it is taken
for. -/
def crossingChecked? (home : Anchor α) (state : GapState) (before after : Option (Effect α)) :
    Checked (Option (TransitionMode × Anchor α × Anchor α × GapKind)) :=
  match state, before, after with
  | .sequenceStart, _, _ => .ok (some (.crossfade, home, home, .start))
  | .sequenceEnd, _, _ => .ok (some (.crossfade, home, home, .finish))
  | .large, some p, some n => do
    return some (.gapFill, ← Anchor.momentChecked 1 p.channels,
      ← Anchor.momentChecked 0 n.channels, .between)
  | .small, some p, some n => do
    return some (smallGapMode p n, ← Anchor.momentChecked 1 p.channels,
      ← Anchor.momentChecked 0 n.channels, .between)
  | _, _, _ => .ok none

/-- The effects that fill one gap of a head. -/
def fillGapChecked (settings : Settings α) (f : Fixture α) (effects : List (Effect α)) (g : Gap) :
    Checked (List (Effect α)) := do
  let before := before? effects g
  let after := after? effects g
  let home ← f.darkHomeChecked settings
  match ← crossingChecked? home (.classify g before after settings.largeGapMs) before after with
  | none => return []
  | some (mode, source, target, kind) =>
    Passage.effectsChecked
      { fixtureId := f.id
        sectionId := g.sectionId
        gapKind := some kind
        startMs := g.startMs
        endMs := g.endMs
        source, target, home
        split := settings.gapSplit
        shutterClosed := settings.shutterClosed }
      mode

/-- The effects of a head without overlaps and with its gaps filled, in order of their
start. -/
def fillChecked (settings : Settings α) (f : Fixture α) (songMs : Nat)
    (effects : List (Effect α)) : Checked (List (Effect α)) := do
  let laid ← resolveOverlapsChecked settings.curvePoints effects
  let found := gaps songMs settings.minGapMs laid
  if found.isEmpty then return laid
  else return sorted (laid ++ (← found.flatMapM (fillGapChecked settings f laid)))

end Timeline

section

variable [Scalar.OrderLaws α]

@[simp]
theorem Effect.cutAtChecked_ok (e : Effect α) (time count : Nat) :
    e.cutAtChecked time count = .ok (e.cutAt time count) := by
  simp [Effect.cutAtChecked, Effect.cutAt, ChannelSet.truncated]

@[simp]
theorem Timeline.roomAtChecked_ok (time count : Nat) (laid : List (Effect α)) :
    Timeline.roomAtChecked time count laid = .ok (Timeline.roomAt time count laid) := by
  induction laid with
  | nil => rfl
  | cons last rest ih => simp [Timeline.roomAtChecked, Timeline.roomAt, ih]

@[simp]
theorem Timeline.layChecked_ok (count : Nat) :
    Timeline.layChecked count = fun laid (e : Effect α) => .ok (Timeline.lay count laid e) := by
  funext laid e
  simp [Timeline.layChecked, Timeline.lay]

@[simp]
theorem Timeline.resolveOverlapsChecked_ok (count : Nat) (effects : List (Effect α)) :
    Timeline.resolveOverlapsChecked count effects =
      .ok (Timeline.resolveOverlaps count effects) := by
  simp [Timeline.resolveOverlapsChecked, Timeline.resolveOverlaps]

@[simp]
theorem Anchor.momentChecked_ok (t : α) (c : ChannelSet α) :
    Anchor.momentChecked t c = .ok (Anchor.moment t c) := by
  simp [Anchor.momentChecked, Anchor.moment]

@[simp]
theorem Fixture.darkHomeChecked_ok (f : Fixture α) (settings : Settings α) :
    f.darkHomeChecked settings = .ok (f.darkHome settings) := by
  simp [Fixture.darkHomeChecked, Fixture.darkHome]

namespace Passage

@[simp]
theorem runChecked_ok (source target : α) : runChecked source target = .ok (run source target) := by
  simp [runChecked, run]

@[simp]
theorem channelsChecked_ok (source target : Anchor α) :
    channelsChecked source target = .ok (channels source target) := by
  have shutter : ∀ a b : Option α, shutterRunChecked a b = .ok (shutterRun a b) := by
    intro a b
    cases a <;> cases b <;> simp [shutterRunChecked, shutterRun]
  simp [channelsChecked, channels, shutter]

@[simp]
theorem phaseChecked?_ok (p : Passage α) (name : String) (startMs endMs : Nat)
    (source target : Anchor α) :
    p.phaseChecked? name startMs endMs source target =
      .ok (p.phase? name startMs endMs source target) := by
  simp [phaseChecked?, phase?]

@[simp]
theorem effectsChecked_ok (p : Passage α) (mode : TransitionMode) :
    p.effectsChecked mode = .ok (p.effects mode) := by
  cases mode with
  | snap => rfl
  | crossfade => simp [effectsChecked, effects, crossfade]
  | fadeThroughBlack => simp [effectsChecked, effects, fadeThroughBlack]
  | gapFill => simp [effectsChecked, effects, byWayOfHome]

end Passage

namespace Timeline

@[simp]
theorem crossingChecked?_ok (home : Anchor α) (state : GapState)
    (before after : Option (Effect α)) :
    crossingChecked? home state before after = .ok (crossing? home state before after) := by
  cases state <;> cases before <;> cases after <;>
    simp [crossingChecked?, crossing?, Anchor.endOf, Anchor.startOf]

@[simp]
theorem fillGapChecked_ok (settings : Settings α) (f : Fixture α) (effects : List (Effect α)) :
    fillGapChecked settings f effects = fun g => .ok (fillGap settings f effects g) := by
  funext g
  simp only [fillGapChecked, fillGap, Fixture.darkHomeChecked_ok, crossingChecked?_ok,
    Checked.ok_bind, Passage.effectsChecked_ok, Checked.pure_eq_ok]
  generalize crossing? (f.darkHome settings) (.classify g (before? effects g) (after? effects g)
    settings.largeGapMs) (before? effects g) (after? effects g) = way
  cases way <;> rfl

@[simp]
theorem fillChecked_ok (settings : Settings α) (f : Fixture α) (songMs : Nat)
    (effects : List (Effect α)) :
    fillChecked settings f songMs effects = .ok (fill settings f songMs effects) := by
  simp [fillChecked, fill]

end Timeline

end

end MovingLight
