import MovingLight.Segment
import MovingLight.Timeline.Blend
import MovingLight.Timeline.Fill
import MovingLight.Timeline.Tags

/-!
# Shows — a plan rendered for a rig

Sections are rendered one after another into one list of effects, which is
tagged and then divided among the heads; each head's effects are filled,
drawn and blended for themselves. A section that cannot be used is skipped
and remembered, and a step whose target cannot be found leaves nothing
behind. Only a rig without heads and a plan without a usable section fail.
-/

namespace MovingLight

/-- The effects of one head, in order of their start. -/
structure HeadTimeline (α : Type) where
  fixtureId : String
  effects : List (Effect α)

/-- A plan as it is played. -/
structure Show (α : Type) where
  songMs : Nat
  /-- One timeline for each head, in stage order. -/
  timelines : List (HeadTimeline α)
  /-- The ids of sections that could not be used. -/
  skipped : List String

namespace Show

variable {α : Type}

/-- The first timeline of a head. -/
def timeline? (s : Show α) (id : String) : Option (HeadTimeline α) :=
  s.timelines.find? (·.fixtureId == id)

/-- All effects, head by head. -/
def effects (s : Show α) : List (Effect α) := s.timelines.flatMap (·.effects)

/-- The number of effects that fill gaps. -/
def gapFillCount (s : Show α) : Nat := (s.effects.filter (·.boundary.isGapFill)).length

end Show

namespace Plan

variable {α : Type} [Scalar α]

/-- The steps of a section that can be used: it takes time, and its steps
are known. -/
def usable? (p : Plan α) (s : PlanSection α) : Option (List (Step α)) :=
  if s.endMs ≤ s.startMs then none else p.steps? s

/-- The effects of one section; a step whose target cannot be found has
none. -/
def sectionEffects (p : Plan α) (rig : Rig α) (settings : Settings α) (s : PlanSection α)
    (steps : List (Step α)) : List (Effect α) :=
  let look := Appearance.resolve (p.appearances.lookup s.id)
  steps.flatMap fun step =>
    match Segment.render rig settings s.span look step with
    | .ok effects => effects
    | .error _ => []

/-- The sections that can be used, with their steps. -/
def usableSections (p : Plan α) : List (PlanSection α × List (Step α)) :=
  p.sections.filterMap fun s => (p.usable? s).map fun steps => (s, steps)

/-- The ids of the sections that cannot be used. -/
def unusableIds (p : Plan α) : List String :=
  (p.sections.filter fun s => (p.usable? s).isNone).map (·.id)

/-- All effects of a plan, section by section, tagged. -/
def sequenced (p : Plan α) (rig : Rig α) (settings : Settings α) : List (Effect α) :=
  Timeline.tag (p.usableSections.map (·.1.span))
    (p.usableSections.flatMap fun u => p.sectionEffects rig settings u.1 u.2)

/-- The effects of each head, in stage order. Where heads share an id the
first of them gets all effects of that id. -/
def divided (effects : List (Effect α)) : List (Fixture α) → List (Fixture α × List (Effect α))
  | [] => []
  | f :: rest =>
    let own := effects.filter (·.fixtureId == f.id)
    let others := effects.filter fun e => !(e.fixtureId == f.id)
    (f, own) :: divided others rest

/-- The plan rendered for a rig. -/
def render (p : Plan α) (rig : Rig α) (settings : Settings α) : Except ShowError (Show α) :=
  if rig.fixtures.isEmpty then .error .noFixtures
  else if p.usableSections.isEmpty then .error .emptyPlan
  else
    let songMs := p.songDurationMs
    .ok {
      songMs
      timelines := (divided (p.sequenced rig settings) rig.fixtures).map fun (f, own) =>
        ⟨f.id, Timeline.finish settings (Timeline.fill settings f songMs own)⟩
      skipped := p.unusableIds }

end Plan

end MovingLight
