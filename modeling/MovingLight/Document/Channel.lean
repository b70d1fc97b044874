import MovingLight.Channel
import MovingLight.Json.Scalar
import MovingLight.Movement

/-!
# Channels and movements in JSON

Channel values and colours are variants with a `type` and a `value`; the
rest are records.
-/

namespace MovingLight

open Json (Place)

variable {α : Type} [Scalar α]

def CurvePoint.ofPlace? (p : Place) : Option (CurvePoint α) := do
  let fs ← p.members?
  return ⟨← fs.required "t" Place.scalar?, ← fs.required "value" Place.scalar?⟩

def CurvePoint.toJson (p : CurvePoint α) : Json :=
  .ofMembers [("t", .ofScalar p.t), ("value", .ofScalar p.value)]

/-- A list of points. -/
def Curve.pointsOf? (p : Place) : Option (Curve α) := p.list? CurvePoint.ofPlace?

def Curve.pointsJson (c : Curve α) : Json := .array (c.map CurvePoint.toJson)

def Wave.ofPlace? (p : Place) : Option (Wave α) := do
  let fs ← p.members?
  let number (name : String) : Option α := fs.required name Place.scalar?
  return {
    shape := ← fs.required "kind" (Place.choice? WaveShape.names)
    min := ← number "min"
    max := ← number "max"
    p1 := ← number "p1"
    p2 := ← number "p2"
    p3 := ← number "p3"
    p4 := ← number "p4" }

def Wave.toJson (w : Wave α) : Json :=
  .ofMembers [("kind", .text w.shape.name), ("min", .ofScalar w.min), ("max", .ofScalar w.max),
    ("p1", .ofScalar w.p1), ("p2", .ofScalar w.p2), ("p3", .ofScalar w.p3),
    ("p4", .ofScalar w.p4)]

def ChannelValue.ofPlace? (p : Place) : Option (ChannelValue α) := do
  let (tag, value) ← p.variant?
  match tag with
  | "static" => value.byte?.map .hold
  | "native" => (Wave.ofPlace? value).map .wave
  | "custom" => do
    let fs ← value.members?
    return .curve (← fs.required "points" Curve.pointsOf?)
  | _ => none

/-- A variant with its type and value. -/
def Json.ofVariant (tag : String) (value : Json) : Json :=
  .ofMembers [("type", .text tag), ("value", value)]

def ChannelValue.toJson : ChannelValue α → Json
  | hold level => .ofVariant "static" (.nat level.toNat)
  | wave w => .ofVariant "native" w.toJson
  | curve c => .ofVariant "custom" (.ofMembers [("points", Curve.pointsJson c)])

/-- Three bytes as an array. -/
def Json.ofBytes (r g b : UInt8) : Json := .array ([r, g, b].map fun v => .nat v.toNat)

def Color.ofPlace? (p : Place) : Option (Color α) := do
  let (tag, value) ← p.variant?
  match tag with
  | "wheel" => (ChannelValue.ofPlace? value).map .wheel
  | "rgb" => value.threeBytes?.map fun (r, g, b) => .rgb r g b
  | _ => none

def Color.toJson : Color α → Json
  | wheel v => .ofVariant "wheel" v.toJson
  | rgb r g b => .ofVariant "rgb" (.ofBytes r g b)

def ChannelSet.ofPlace? (p : Place) : Option (ChannelSet α) := do
  let fs ← p.members?
  return {
    pan := ← fs.required "pan" ChannelValue.ofPlace?
    tilt := ← fs.required "tilt" ChannelValue.ofPlace?
    dimmer := ← fs.required "dimmer" ChannelValue.ofPlace?
    shutter := ← fs.optional "shutter" ChannelValue.ofPlace?
    color := ← fs.optional "color" Color.ofPlace?
    gobo := ← fs.optional "gobo" ChannelValue.ofPlace? }

def ChannelSet.toJson (c : ChannelSet α) : Json :=
  .ofMembers [("pan", c.pan.toJson), ("tilt", c.tilt.toJson), ("dimmer", c.dimmer.toJson),
    ("shutter", .ofOption ChannelValue.toJson c.shutter),
    ("color", .ofOption Color.toJson c.color),
    ("gobo", .ofOption ChannelValue.toJson c.gobo)]

def Movement.ofPlace? (p : Place) : Option (Movement α) := do
  let fs ← p.members?
  return {
    pattern := ← fs.required "pattern" Place.text?
    intensity := ← fs.withDefault "intensity" .moderate (Place.choice? Intensity.names)
    amplitude := ← fs.optional "amplitude" Place.scalar?
    frequency := ← fs.optional "frequency" Place.scalar?
    phaseDeg := ← fs.withDefault "phaseDeg" 0 Place.scalar?
    tiltRole := ← fs.optional "tiltRole" (Place.choice? TiltRole.names)
    panOffsetDeg := ← fs.withDefault "panOffsetDeg" 0 Place.scalar?
    tiltOffsetDeg := ← fs.withDefault "tiltOffsetDeg" 0 Place.scalar? }

def Movement.toJson (m : Movement α) : Json :=
  .ofMembers [("pattern", .text m.pattern), ("intensity", .text m.intensity.name),
    ("amplitude", .ofOption .ofScalar m.amplitude), ("frequency", .ofOption .ofScalar m.frequency),
    ("phaseDeg", .ofScalar m.phaseDeg),
    ("tiltRole", .ofOption (fun r => .text r.name) m.tiltRole),
    ("panOffsetDeg", .ofScalar m.panOffsetDeg), ("tiltOffsetDeg", .ofScalar m.tiltOffsetDeg)]

end MovingLight
