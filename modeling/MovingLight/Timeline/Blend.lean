import MovingLight.Settings
import MovingLight.Timeline.Overlap

/-!
# Drawing and blending — the last step of a head's timeline

First every curve is drawn smoothly through a fixed number of points; levels
and waves stay as they are. Then neighbouring effects are blended where they
meet in a crossfade: inside the blend the samples of each are pulled towards
what the other shows at the boundary, all the way at the boundary itself.

A head one of whose channels is left to the player is not blended anywhere,
because nothing in a wave can be pulled.
-/

namespace MovingLight

variable {α : Type} [Scalar α]

/-! ## Drawing -/

/-- The channel with its curve drawn through `count` points, dark where no
point counts. -/
def ChannelValue.drawn (count : Nat) : ChannelValue α → ChannelValue α
  | .curve c => .curve ((c.smooth? count).getD (Curve.flat 0 count))
  | v => v

/-- The effect with all its curves drawn. -/
def Effect.drawn (count : Nat) (e : Effect α) : Effect α :=
  { e with channels := e.channels.map (·.drawn count) }

/-! ## Blending -/

/-- The two sides of a boundary. -/
inductive Side where
  /-- The end of the earlier effect. -/
  | tail
  /-- The start of the later effect. -/
  | head
  deriving DecidableEq, Repr

/-- How strongly a sample at a time is pulled, on a scale to one that it may
overrun. -/
def Side.weight (side : Side) (durationMs blendMs timeMs : α) : α :=
  match side with
  | tail => (timeMs - (durationMs - blendMs)) / blendMs
  | head => 1 - timeMs / blendMs

/-- One sample pulled towards an anchor. -/
def CurvePoint.pulled (side : Side) (durationMs blendMs anchor : α) (p : CurvePoint α) :
    CurvePoint α :=
  let weight := side.weight durationMs blendMs (p.t * durationMs)
  if weight ≤ 0 then p
  else
    let weight := Scalar.lesser weight 1
    { p with value := (1 - weight) * p.value + weight * anchor }

/-- A channel as points; a wave has none. -/
def ChannelValue.points? (count : Nat) : ChannelValue α → Option (Curve α)
  | .hold level => some (Curve.flat (level.toNat : α) count)
  | .curve c => some c
  | .wave _ => none

/-- The two channels of neighbouring effects blended at their boundary.
Channels that hold one level stay as they are. -/
def ChannelValue.blended (current next : ChannelValue α) (currentMs nextMs : Nat) (blendMs : α)
    (count : Nat) : ChannelValue α × ChannelValue α :=
  let same := match current, next with
    | .hold a, .hold b => a == b
    | _, _ => false
  if same then (current, next)
  else
    match current.points? count, next.points? count with
    | some tail, some head =>
      (.curve (tail.map (CurvePoint.pulled .tail (currentMs : α) blendMs next.startValue)),
        .curve (head.map (CurvePoint.pulled .head (nextMs : α) blendMs current.endValue)))
    | _, _ => (current, next)

/-- The channels of neighbouring effects blended at their boundary: pan,
tilt and dimmer, and the shutter where both have one. -/
def ChannelSet.blended (current next : ChannelSet α) (currentMs nextMs : Nat) (blendMs : α)
    (count : Nat) : ChannelSet α × ChannelSet α :=
  let blend (a b : ChannelValue α) := a.blended b currentMs nextMs blendMs count
  let pan := blend current.pan next.pan
  let tilt := blend current.tilt next.tilt
  let dimmer := blend current.dimmer next.dimmer
  let shutter := match current.shutter, next.shutter with
    | some a, some b =>
      let s := blend a b
      (some s.1, some s.2)
    | a, b => (a, b)
  ({ current with pan := pan.1, tilt := tilt.1, dimmer := dimmer.1, shutter := shutter.1 },
    { next with pan := pan.2, tilt := tilt.2, dimmer := dimmer.2, shutter := shutter.2 })

/-- The transition at the boundary of two effects and its length. One that
gives no length takes the usual one, and without any the effects snap. -/
def Effect.boundaryTransition (current next : Effect α) (defaultMs : Nat) :
    TransitionMode × Nat :=
  match current.transitionTo next with
  | some t => (t.mode, if 0 < t.durationMs then t.durationMs else defaultMs)
  | none => (.snap, 0)

/-- The length of the blend of two neighbours: none where they do not meet
in a crossfade, and no more than the given share of either. -/
def Effect.blendLength? (settings : Settings α) (current next : Effect α) : Option α :=
  let (mode, requested) := current.boundaryTransition next settings.defaultBlendMs
  if current.endMs < next.startMs then none
  else if mode ≠ .crossfade then none
  else
    let blendMs := Scalar.lesser
      (Scalar.lesser (requested : α) (settings.blendFraction * (current.durationMs : α)))
      (settings.blendFraction * (next.durationMs : α))
    if blendMs ≤ 0 then none else some blendMs

/-- Two neighbours blended at their boundary. -/
def Effect.blended (settings : Settings α) (current next : Effect α) : Effect α × Effect α :=
  match current.blendLength? settings next with
  | none => (current, next)
  | some blendMs =>
    let c := current.channels.blended next.channels current.durationMs next.durationMs blendMs
      (max settings.curvePoints 2)
    ({ current with channels := c.1 }, { next with channels := c.2 })

/-- An effect and all that follow, blended from left to right. -/
def Timeline.blendFrom (settings : Settings α) (current : Effect α) :
    List (Effect α) → List (Effect α)
  | [] => [current]
  | next :: rest =>
    let pair := current.blended settings next
    pair.1 :: blendFrom settings pair.2 rest

/-- The drawn effects of one head, blended at every boundary. -/
def Timeline.blend (settings : Settings α) (effects : List (Effect α)) : List (Effect α) :=
  match effects with
  | [] => []
  | e :: rest =>
    if effects.any (·.channels.hasWave) then effects else Timeline.blendFrom settings e rest

/-- The effects of one head in order, drawn and blended. -/
def Timeline.finish (settings : Settings α) (effects : List (Effect α)) : List (Effect α) :=
  Timeline.blend settings
    ((Timeline.sorted effects).map (Effect.drawn (max settings.curvePoints 2)))

end MovingLight
