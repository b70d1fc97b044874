import MovingLight.Json.Scalar
import MovingLight.Rig

/-!
# Rigs in JSON

A head needs no more than an id; what it does not say about its axes, its
dimmer and its channels is that of an ordinary head. An axis and a channel
map that are given must be given in full, their optional parts apart.
-/

namespace MovingLight

open Json (Place)

/-- The largest channel number and the widest travel that can be written. -/
def maxShort : Nat := 65535

def Axis.ofPlace? (p : Place) : Option Axis := do
  let fs ← p.members?
  return {
    rangeDeg := ← fs.required "rangeDeg" (Place.nat? maxShort)
    centerDmx := ← fs.required "centerDmx" Place.byte?
    minDmx := ← fs.withDefault "minDmx" 0 Place.byte?
    maxDmx := ← fs.withDefault "maxDmx" 255 Place.byte? }

def Axis.toJson (a : Axis) : Json :=
  .ofMembers [("rangeDeg", .nat a.rangeDeg), ("centerDmx", .nat a.centerDmx.toNat),
    ("minDmx", .nat a.minDmx.toNat), ("maxDmx", .nat a.maxDmx.toNat)]

def Limits.ofPlace? (p : Place) : Option Limits := do
  let fs ← p.members?
  return ⟨← fs.required "min" Place.byte?, ← fs.required "max" Place.byte?⟩

def Limits.toJson (l : Limits) : Json :=
  .ofMembers [("min", .nat l.min.toNat), ("max", .nat l.max.toNat)]

def ChannelMap.ofPlace? (p : Place) : Option ChannelMap := do
  let fs ← p.members?
  let number := Place.nat? maxShort
  return {
    pan := ← fs.required "pan" number
    tilt := ← fs.required "tilt" number
    dimmer := ← fs.required "dimmer" number
    shutter := ← fs.optional "shutter" number
    color := ← fs.optional "color" number
    gobo := ← fs.optional "gobo" number
    red := ← fs.optional "red" number
    green := ← fs.optional "green" number
    blue := ← fs.optional "blue" number }

def ChannelMap.toJson (m : ChannelMap) : Json :=
  let number := Json.ofOption Json.nat
  .ofMembers [("pan", .nat m.pan), ("tilt", .nat m.tilt), ("dimmer", .nat m.dimmer),
    ("shutter", number m.shutter), ("color", number m.color), ("gobo", number m.gobo),
    ("red", number m.red), ("green", number m.green), ("blue", number m.blue)]

variable {α : Type} [Scalar α]

def Pose.ofPlace? (p : Place) : Option (Pose α) := do
  let fs ← p.members?
  return ⟨← fs.required "panDeg" Place.scalar?, ← fs.required "tiltDeg" Place.scalar?⟩

def Pose.toJson (p : Pose α) : Json :=
  .ofMembers [("panDeg", .ofScalar p.panDeg), ("tiltDeg", .ofScalar p.tiltDeg)]

def Fixture.ofPlace? (p : Place) : Option (Fixture α) := do
  let fs ← p.members?
  return {
    id := ← fs.required "id" Place.text?
    label := ← fs.optional "label" Place.text?
    pan := ← fs.withDefault "pan" .defaultPan Axis.ofPlace?
    tilt := ← fs.withDefault "tilt" .defaultTilt Axis.ofPlace?
    dimmer := ← fs.withDefault "dimmer" .full Limits.ofPlace?
    channels := ← fs.withDefault "channels" {} ChannelMap.ofPlace?
    resting := ← fs.optional "resting" Pose.ofPlace? }

def Fixture.toJson (f : Fixture α) : Json :=
  .ofMembers [("id", .text f.id), ("label", .ofOption .text f.label), ("pan", f.pan.toJson),
    ("tilt", f.tilt.toJson), ("dimmer", f.dimmer.toJson), ("channels", f.channels.toJson),
    ("resting", .ofOption Pose.toJson f.resting)]

/-- The members of a group. -/
def Rig.membersOf? (p : Place) : Option (List String) := p.list? Place.text?

/-- A rig with its built-in groups. -/
def Rig.ofPlace? (p : Place) : Option (Rig α) := do
  let fs ← p.members?
  let fixtures ← fs.required "fixtures" (Place.list? Fixture.ofPlace?)
  let groups ← fs.withDefault "groups" [] (Place.map? Rig.membersOf?)
  return fillGroups { fixtures, groups }

def Rig.groupsJson (r : Rig α) : Json :=
  .ofMembers (r.groups.map fun g => (g.1, .array (g.2.map .text)))

def Rig.toJson (r : Rig α) : Json :=
  .ofMembers [("fixtures", .array (r.fixtures.map Fixture.toJson)), ("groups", r.groupsJson)]

end MovingLight
