import MovingLight.Effect
import MovingLight.Formation.Params
import MovingLight.Plan.Appearance
import MovingLight.Plan.Pose

/-!
# Plans

A `Plan` divides a song into sections. A section names a template, a
reusable sequence of steps timed as fractions of the section, and may give
instructions that are laid over every step of it. `Plan.steps?` is where the
two come together: each step of the template for each instruction, or just
the one if there is only one.
-/

namespace MovingLight

structure MovementInstruction (α : Type) where
  pattern : String
  intensity : String
  amplitude : Option α
  frequency : Option α
  deriving DecidableEq, Repr

structure DimmerInstruction (α : Type) where
  pattern : String
  intensity : String
  levelPercent : Option α
  deriving DecidableEq, Repr

structure FormationInstruction where
  kind : String
  params : Params

/-- What a step does, apart from when and with which heads. -/
structure StepContent (α : Type) where
  basePose : Option (PoseRef α) := none
  movement : Option (MovementInstruction α) := none
  dimmer : Option (DimmerInstruction α) := none
  formation : Option FormationInstruction := none

/-- A step of a template. Its span is given as fractions of the section. -/
structure Step (α : Type) where
  id : String
  start : α
  finish : α
  target : String
  content : StepContent α

/-- An instruction for some heads, laid over the steps of a template. -/
structure Instruction (α : Type) where
  target : String
  content : StepContent α

structure Template (α : Type) where
  id : String
  steps : List (Step α)

structure PlanSection (α : Type) where
  id : String
  startMs : Nat
  endMs : Nat
  template : Option String
  transitionIn : Option Transition
  transitionOut : Option Transition
  instructions : List (Instruction α)

structure Plan (α : Type) where
  /-- The length of the song; that of the plan where none is given. -/
  songMs : Option Nat
  sections : List (PlanSection α)
  templates : List (Template α)
  /-- The appearance of sections, by their ids. -/
  appearances : List (String × AppearanceSpec α)

/-- The span of a section and the transitions at its ends. -/
structure Span where
  id : String
  startMs : Nat
  endMs : Nat
  transitionIn : Option Transition := none
  transitionOut : Option Transition := none
  deriving DecidableEq, Repr

def Span.durationMs (s : Span) : Nat := s.endMs - s.startMs

/-- One content over another: what the upper one does not say, the lower one
does. -/
def StepContent.over {α : Type} (upper lower : StepContent α) : StepContent α where
  basePose := upper.basePose.or lower.basePose
  movement := upper.movement.or lower.movement
  dimmer := upper.dimmer.or lower.dimmer
  formation := upper.formation.or lower.formation

/-- The step for the heads of an instruction, with what it says on top. -/
def Step.withInstruction {α : Type} (s : Step α) (i : Instruction α) : Step α :=
  { s with target := i.target, content := i.content.over s.content }

/-- A step that lasts the whole section and is for every head. -/
def Step.wholeSection {α : Type} [Scalar α] : Step α := ⟨"", 0, 1, "ALL", {}⟩

namespace PlanSection

variable {α : Type}

def durationMs (s : PlanSection α) : Nat := s.endMs - s.startMs

def span (s : PlanSection α) : Span :=
  ⟨s.id, s.startMs, s.endMs, s.transitionIn, s.transitionOut⟩

end PlanSection

namespace Plan

variable {α : Type}

/-- The length of the song in milliseconds. -/
def songDurationMs (p : Plan α) : Nat :=
  p.songMs.getD ((p.sections.map (·.endMs)).foldl max 0)

def template? (p : Plan α) (id : String) : Option (Template α) :=
  p.templates.find? (·.id == id)

/-- Every step of a list for every instruction; the steps as they are where
there is no instruction. -/
def instructed (instructions : List (Instruction α)) (steps : List (Step α)) : List (Step α) :=
  if instructions.isEmpty then steps
  else steps.flatMap fun s => instructions.map s.withInstruction

/-- The steps of a section. There are none to be had of a section that names
a template the plan does not have, or has neither template nor instruction. -/
def steps? [Scalar α] (p : Plan α) (s : PlanSection α) : Option (List (Step α)) :=
  match s.template with
  | some id => (p.template? id).map fun t => instructed s.instructions t.steps
  | none =>
    if s.instructions.isEmpty then none
    else some (instructed s.instructions [Step.wholeSection])

end Plan

end MovingLight
