import MovingLight.Plan

/-!
# Tags — which effects open and close a section

Among all effects of one section, whatever head they are for, those with the
earliest start open it and those with the latest end close it. The first
take the section's transition in as their entry, the last its transition out
as their exit. Nothing else about an effect changes.
-/

namespace MovingLight

variable {α : Type}

/-- The effects of one section. -/
def Timeline.ofSection (effects : List (Effect α)) (id : String) : List (Effect α) :=
  effects.filter (·.boundary.sectionId == id)

/-- The earliest start among the effects of a section. -/
def Timeline.sectionStart (effects : List (Effect α)) (id : String) : Nat :=
  (((Timeline.ofSection effects id).map (·.startMs)).min?).getD 0

/-- The latest end among the effects of a section. -/
def Timeline.sectionEnd (effects : List (Effect α)) (id : String) : Nat :=
  (((Timeline.ofSection effects id).map (·.endMs)).max?).getD 0

/-- The effect marked as opening or closing its section, given when the
section starts and ends and what it is. -/
def Effect.tagged (e : Effect α) (startMs endMs : Nat) (sec : Option Span) : Effect α :=
  let opens := e.startMs == startMs
  let closes := e.endMs == endMs
  { e with
    boundary :=
      { e.boundary with
        isSectionStart := opens
        isSectionEnd := closes
        entry := if opens then sec.bind (·.transitionIn) else e.boundary.entry
        exit := if closes then sec.bind (·.transitionOut) else e.boundary.exit } }

/-- Every effect marked as opening or closing its section. -/
def Timeline.tag (sections : List Span) (effects : List (Effect α)) : List (Effect α) :=
  effects.map fun e =>
    let id := e.boundary.sectionId
    e.tagged (Timeline.sectionStart effects id) (Timeline.sectionEnd effects id)
      (sections.find? (·.id == id))

end MovingLight
