import MovingLight.Document.Rig
import MovingLight.Settings

/-!
# Settings in JSON

Any part of the settings may be left out and is then as usual; a split of
gaps that is given must be given in full.
-/

namespace MovingLight

open Json (Place)

variable {α : Type} [Scalar α]

def GapSplit.ofPlace? (p : Place) : Option (GapSplit α) := do
  let fs ← p.members?
  return {
    rampOut := ← fs.required "rampOut" Place.scalar?
    hold := ← fs.required "hold" Place.scalar?
    rampIn := ← fs.required "rampIn" Place.scalar? }

def GapSplit.toJson (s : GapSplit α) : Json :=
  .ofMembers [("rampOut", .ofScalar s.rampOut), ("hold", .ofScalar s.hold),
    ("rampIn", .ofScalar s.rampIn)]

def Settings.ofPlace? (p : Place) : Option (Settings α) := do
  let fs ← p.members?
  let base : Settings α := .standard
  let whole := Place.nat? Text.maxWord
  return {
    largeGapMs := ← fs.withDefault "largeGapThresholdMs" base.largeGapMs whole
    minGapMs := ← fs.withDefault "minGapMs" base.minGapMs whole
    softHome := ← fs.withDefault "softHome" base.softHome Pose.ofPlace?
    curvePoints := ← fs.withDefault "curvePoints" base.curvePoints whole
    defaultBlendMs := ← fs.withDefault "defaultBlendMs" base.defaultBlendMs whole
    blendFraction := ← fs.withDefault "blendWindowFraction" base.blendFraction Place.scalar?
    gapSplit := ← fs.withDefault "gapSplit" base.gapSplit GapSplit.ofPlace?
    shutterOpen := ← fs.withDefault "shutterOpen" base.shutterOpen Place.byte?
    shutterClosed := ← fs.withDefault "shutterClosed" base.shutterClosed Place.byte? }

def Settings.toJson (s : Settings α) : Json :=
  .ofMembers [("largeGapThresholdMs", .nat s.largeGapMs), ("minGapMs", .nat s.minGapMs),
    ("softHome", s.softHome.toJson), ("curvePoints", .nat s.curvePoints),
    ("defaultBlendMs", .nat s.defaultBlendMs), ("blendWindowFraction", .ofScalar s.blendFraction),
    ("gapSplit", s.gapSplit.toJson), ("shutterOpen", .nat s.shutterOpen.toNat),
    ("shutterClosed", .nat s.shutterClosed.toNat)]

end MovingLight
