import MovingLight.Document.Channel
import MovingLight.Effect
import MovingLight.Text.Numeral
import MovingLight.Timeline.Gap

/-!
# Effects in JSON

An effect is the same record before and after its curves are drawn.
-/

namespace MovingLight

open Json (Place)

/-- A length of time in milliseconds. -/
def Json.Place.ms? (p : Place) : Option Nat := p.nat? Text.maxWord

def Transition.ofPlace? (p : Place) : Option Transition := do
  let fs ← p.members?
  return {
    mode := ← fs.required "mode" (Place.choice? TransitionMode.names)
    durationMs := ← fs.withDefault "durationMs" 0 Place.ms? }

def Transition.toJson (t : Transition) : Json :=
  .ofMembers [("mode", .text t.mode.name), ("durationMs", .nat t.durationMs)]

def Boundary.ofPlace? (p : Place) : Option Boundary := do
  let fs ← p.members?
  return {
    isSectionStart := ← fs.required "isSectionStart" Place.bool?
    isSectionEnd := ← fs.required "isSectionEnd" Place.bool?
    sectionId := ← fs.required "sectionId" Place.text?
    entry := ← fs.optional "entry" Transition.ofPlace?
    exit := ← fs.optional "exit" Transition.ofPlace?
    isGapFill := ← fs.required "isGapFill" Place.bool?
    gapKind := ← fs.optional "gapType" (Place.choice? GapKind.names) }

def Boundary.toJson (b : Boundary) : Json :=
  .ofMembers [("isSectionStart", .bool b.isSectionStart), ("isSectionEnd", .bool b.isSectionEnd),
    ("sectionId", .text b.sectionId), ("entry", .ofOption Transition.toJson b.entry),
    ("exit", .ofOption Transition.toJson b.exit), ("isGapFill", .bool b.isGapFill),
    ("gapType", .ofOption (fun k => .text k.name) b.gapKind)]

def Gap.ofPlace? (p : Place) : Option Gap := do
  let fs ← p.members?
  return {
    startMs := ← fs.required "startMs" Place.ms?
    endMs := ← fs.required "endMs" Place.ms?
    sectionId := ← fs.required "sectionId" Place.text?
    kind := ← fs.required "gapType" (Place.choice? GapKind.names) }

def Gap.toJson (g : Gap) : Json :=
  .ofMembers [("startMs", .nat g.startMs), ("endMs", .nat g.endMs),
    ("sectionId", .text g.sectionId), ("gapType", .text g.kind.name)]

variable {α : Type} [Scalar α]

def Effect.ofPlace? (p : Place) : Option (Effect α) := do
  let fs ← p.members?
  return {
    fixtureId := ← fs.required "fixtureId" Place.text?
    startMs := ← fs.required "startMs" Place.ms?
    endMs := ← fs.required "endMs" Place.ms?
    channels := ← fs.required "channels" ChannelSet.ofPlace?
    boundary := ← fs.required "boundary" Boundary.ofPlace?
    label := ← fs.required "label" Place.text?
    metadata := ← fs.withDefault "metadata" [] Place.freeMap? }

def Effect.toJson (e : Effect α) : Json :=
  .ofMembers [("fixtureId", .text e.fixtureId), ("startMs", .nat e.startMs),
    ("endMs", .nat e.endMs), ("channels", e.channels.toJson), ("boundary", e.boundary.toJson),
    ("label", .text e.label), ("metadata", .ofMembers e.metadata)]

end MovingLight
