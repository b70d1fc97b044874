import MovingLight.Document.Effect
import MovingLight.Document.Rig
import MovingLight.Plan

/-!
# Plans in JSON

Poses, appearance values and their curves are written in several ways
without saying which. They are read by trying the ways in order, so what is
written has to be sound throughout, unknown members included.
-/

namespace MovingLight

open Json (Place)

variable {α : Type} [Scalar α]

/-! ## Poses and appearances -/

def PoseRef.ofPlace? (p : Place) : Option (PoseRef α) :=
  if p.sound then (p.text?.map .named).or ((Pose.ofPlace? p).map .explicit) else none

def PoseRef.toJson : PoseRef α → Json
  | named name => .text name
  | explicit pose => pose.toJson

/-- A curve given by its points. -/
def CurveSpec.pointsOf? (p : Place) : Option (CurveSpec α) := do
  let fs ← p.members?
  return .points (← fs.required "points" Curve.pointsOf?)

/-- A curve given by a shape. -/
def CurveSpec.waveOf? (p : Place) : Option (CurveSpec α) := do
  let fs ← p.members?
  return .wave (← fs.required "kind" (Place.choice? WaveShape.names))
    (← fs.required "min" Place.scalar?) (← fs.required "max" Place.scalar?)
    (← fs.withDefault "cycles" 1 Place.scalar?)

def CurveSpec.toJson : CurveSpec α → Json
  | points c => .ofMembers [("points", Curve.pointsJson c)]
  | wave shape min max cycles =>
    .ofMembers [("kind", .text shape.name), ("min", .ofScalar min), ("max", .ofScalar max),
      ("cycles", .ofScalar cycles)]

def AppearanceValue.ofPlace? (p : Place) : Option (AppearanceValue α) :=
  if p.sound then
    (p.byte?.map .level).or <|
      (p.threeBytes?.map fun (r, g, b) => .rgb r g b).or <|
        ((CurveSpec.pointsOf? p).or (CurveSpec.waveOf? p)).map .curve
  else none

def AppearanceValue.toJson : AppearanceValue α → Json
  | level v => .nat v.toNat
  | rgb r g b => .ofBytes r g b
  | curve spec => spec.toJson

def AppearanceSpec.ofPlace? (p : Place) : Option (AppearanceSpec α) := do
  let fs ← p.members?
  return {
    shutter := ← fs.optional "shutter" AppearanceValue.ofPlace?
    color := ← fs.optional "color" AppearanceValue.ofPlace?
    gobo := ← fs.optional "gobo" AppearanceValue.ofPlace? }

def AppearanceSpec.toJson (a : AppearanceSpec α) : Json :=
  let value := Json.ofOption (@AppearanceValue.toJson α _)
  .ofMembers [("shutter", value a.shutter), ("color", value a.color), ("gobo", value a.gobo)]

/-! ## Steps and instructions -/

def MovementInstruction.ofPlace? (p : Place) : Option (MovementInstruction α) := do
  let fs ← p.members?
  return {
    pattern := ← fs.required "pattern" Place.text?
    intensity := ← fs.withDefault "intensity" "moderate" Place.text?
    amplitude := ← fs.optional "amplitude" Place.scalar?
    frequency := ← fs.optional "frequency" Place.scalar? }

def MovementInstruction.toJson (m : MovementInstruction α) : Json :=
  .ofMembers [("pattern", .text m.pattern), ("intensity", .text m.intensity),
    ("amplitude", .ofOption .ofScalar m.amplitude),
    ("frequency", .ofOption .ofScalar m.frequency)]

def DimmerInstruction.ofPlace? (p : Place) : Option (DimmerInstruction α) := do
  let fs ← p.members?
  return {
    pattern := ← fs.required "pattern" Place.text?
    intensity := ← fs.withDefault "intensity" "moderate" Place.text?
    levelPercent := ← fs.optional "levelPct" Place.scalar? }

def DimmerInstruction.toJson (d : DimmerInstruction α) : Json :=
  .ofMembers [("pattern", .text d.pattern), ("intensity", .text d.intensity),
    ("levelPct", .ofOption .ofScalar d.levelPercent)]

def FormationInstruction.ofPlace? (p : Place) : Option FormationInstruction := do
  let fs ← p.members?
  return {
    kind := ← fs.required "type" Place.text?
    params := ← fs.withDefault "params" [] Place.freeMap? }

def FormationInstruction.toJson (f : FormationInstruction) : Json :=
  .ofMembers [("type", .text f.kind), ("params", .ofMembers f.params)]

/-- The members a step and an instruction have in common. -/
def StepContent.ofFields? (fs : Json.Fields) : Option (StepContent α) := do
  return {
    basePose := ← fs.optional "basePose" PoseRef.ofPlace?
    movement := ← fs.optional "movement" MovementInstruction.ofPlace?
    dimmer := ← fs.optional "dimmer" DimmerInstruction.ofPlace?
    formation := ← fs.optional "geometry" FormationInstruction.ofPlace? }

def StepContent.toMembers (c : StepContent α) : List (String × Json) :=
  [("basePose", .ofOption PoseRef.toJson c.basePose),
    ("movement", .ofOption MovementInstruction.toJson c.movement),
    ("dimmer", .ofOption DimmerInstruction.toJson c.dimmer),
    ("geometry", .ofOption FormationInstruction.toJson c.formation)]

def Step.ofPlace? (p : Place) : Option (Step α) := do
  let fs ← p.members?
  return {
    id := ← fs.withDefault "id" "" Place.text?
    start := ← fs.withDefault "start" 0 Place.scalar?
    finish := ← fs.withDefault "end" 1 Place.scalar?
    target := ← fs.withDefault "target" "ALL" Place.text?
    content := ← StepContent.ofFields? fs }

def Step.toJson (s : Step α) : Json :=
  .ofMembers ([("id", .text s.id), ("start", .ofScalar s.start), ("end", .ofScalar s.finish),
    ("target", .text s.target)] ++ s.content.toMembers)

def Instruction.ofPlace? (p : Place) : Option (Instruction α) := do
  let fs ← p.members?
  return { target := ← fs.required "target" Place.text?, content := ← StepContent.ofFields? fs }

def Instruction.toJson (i : Instruction α) : Json :=
  .ofMembers (("target", .text i.target) :: i.content.toMembers)

def Template.ofPlace? (p : Place) : Option (Template α) := do
  let fs ← p.members?
  return { id := ← fs.required "id" Place.text?
           steps := ← fs.required "steps" (Place.list? Step.ofPlace?) }

def Template.toJson (t : Template α) : Json :=
  .ofMembers [("id", .text t.id), ("steps", .array (t.steps.map Step.toJson))]

/-! ## Sections and plans -/

def PlanSection.ofPlace? (p : Place) : Option (PlanSection α) := do
  let fs ← p.members?
  return {
    id := ← fs.required "id" Place.text?
    startMs := ← fs.required "startMs" Place.ms?
    endMs := ← fs.required "endMs" Place.ms?
    template := ← fs.optional "template" Place.text?
    transitionIn := ← fs.optional "transitionIn" Transition.ofPlace?
    transitionOut := ← fs.optional "transitionOut" Transition.ofPlace?
    instructions := ← fs.withDefault "instructions" [] (Place.list? Instruction.ofPlace?) }

def PlanSection.toJson (s : PlanSection α) : Json :=
  .ofMembers [("id", .text s.id), ("startMs", .nat s.startMs), ("endMs", .nat s.endMs),
    ("template", .ofOption .text s.template),
    ("transitionIn", .ofOption Transition.toJson s.transitionIn),
    ("transitionOut", .ofOption Transition.toJson s.transitionOut),
    ("instructions", .array (s.instructions.map Instruction.toJson))]

def Plan.ofPlace? (p : Place) : Option (Plan α) := do
  let fs ← p.members?
  return {
    songMs := ← fs.optional "songDurationMs" Place.ms?
    sections := ← fs.required "sections" (Place.list? PlanSection.ofPlace?)
    templates := ← fs.withDefault "templates" [] (Place.list? Template.ofPlace?)
    appearances := ← fs.withDefault "overlays" [] (Place.map? AppearanceSpec.ofPlace?) }

def Plan.toJson (p : Plan α) : Json :=
  .ofMembers [("songDurationMs", .ofOption .nat p.songMs),
    ("sections", .array (p.sections.map PlanSection.toJson)),
    ("templates", .array (p.templates.map Template.toJson)),
    ("overlays", .ofMembers (p.appearances.map fun a => (a.1, a.2.toJson)))]

end MovingLight
