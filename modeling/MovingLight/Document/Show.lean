import MovingLight.Document.Effect
import MovingLight.Show
import MovingLight.Table.Setting

/-!
# Shows and effect settings in JSON
-/

namespace MovingLight

open Json (Place)

variable {α : Type} [Scalar α]

def HeadTimeline.ofPlace? (p : Place) : Option (HeadTimeline α) := do
  let fs ← p.members?
  return { fixtureId := ← fs.required "fixtureId" Place.text?
           effects := ← fs.required "effects" (Place.list? Effect.ofPlace?) }

def HeadTimeline.toJson (h : HeadTimeline α) : Json :=
  .ofMembers [("fixtureId", .text h.fixtureId), ("effects", .array (h.effects.map Effect.toJson))]

def Show.ofPlace? (p : Place) : Option (Show α) := do
  let fs ← p.members?
  return {
    songMs := ← fs.required "songDurationMs" Place.ms?
    timelines := ← fs.required "timelines" (Place.list? HeadTimeline.ofPlace?)
    skipped := ← fs.required "skippedSections" (Place.list? Place.text?) }

def Show.toJson (s : Show α) : Json :=
  .ofMembers [("songDurationMs", .nat s.songMs),
    ("timelines", .array (s.timelines.map HeadTimeline.toJson)),
    ("skippedSections", .array (s.skipped.map .text))]

def ChannelSetting.toJson : ChannelSetting → Json
  | slider level => .ofMembers [("slider", .nat level.toNat)]
  | curve descriptor => .ofMembers [("curve", .text descriptor)]

/-- The settings of an effect; channel numbers are names. -/
def EffectSettings.toJson (s : EffectSettings) : Json :=
  .ofMembers [("channels", .ofMembers (s.channels.map fun c => (toString c.1, c.2.toJson)))]

end MovingLight
