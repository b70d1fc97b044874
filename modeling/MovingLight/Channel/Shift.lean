import MovingLight.Channel

/-!
# Shifting a channel — phase and inversion for one head

A formation may let heads run the same movement one after the other, or
against one another. `ChannelValue.shifted` bakes a phase and an inversion
into the points of a curve; where there is neither, the channel stays as it
is, wave or not.

Inversion reflects the values about the middle of their own range, so a tilt
that swings around a pose swings around the same pose the other way.
-/

namespace MovingLight

variable {α : Type} [Scalar α]

/-- The middle of the values of a curve. -/
def Curve.middle (c : Curve α) : α :=
  let lo := (c.map (·.value)).foldl Scalar.runningMin Scalar.maxFinite
  let hi := (c.map (·.value)).foldl Scalar.runningMax (Scalar.maxFinite.map (-·))
  (lo.getD 0 + hi.getD 0) / 2

/-- A value reflected about a middle, as a level. -/
def reflected (middle value : α) : α := Scalar.clamp 0 255 (2 * middle - value)

/-- The channel moved ahead by a phase in degrees, and reflected if asked. -/
def ChannelValue.shifted (v : ChannelValue α) (phaseDeg : α) (invert : Bool) (count : Nat) :
    ChannelValue α :=
  let phase := Scalar.emod phaseDeg 360
  if Scalar.abs phase < 0.0001 && !invert then v
  else
    match v with
    | .hold level => .hold level
    | .wave w =>
      let middle := (w.min + w.max) / 2
      .curve <| Curve.sampled count fun t =>
        let x := w.sampleWithPhase t phase
        if invert then reflected middle x else x
    | .curve c =>
      let middle := c.middle
      .curve <| Curve.sampled count fun t =>
        let x := c.valueAt (Scalar.emod (t + phase / 360) 1)
        if invert then reflected middle x else x

end MovingLight
