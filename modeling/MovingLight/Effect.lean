import MovingLight.Channel
import MovingLight.Error
import MovingLight.Json
import MovingLight.Text.Blank

/-!
# Effects — what one head does from one time to another

An `Effect` is a channel set with a span of time in milliseconds, open at its
end, and what is known about its place in the show: the section it belongs
to, whether it opens or closes that section and how, and whether it was made
up to fill a gap.
-/

namespace MovingLight

/-- How one effect gives way to the next. -/
inductive TransitionMode where
  | snap
  | crossfade
  | fadeThroughBlack
  | gapFill
  deriving DecidableEq, Repr

namespace TransitionMode

def name : TransitionMode → String
  | snap => "snap"
  | crossfade => "crossfade"
  | fadeThroughBlack => "fade_through_black"
  | gapFill => "gap_fill"

/-- Every mode with its name. -/
def names : List (String × TransitionMode) :=
  [snap, crossfade, fadeThroughBlack, gapFill].map fun m => (m.name, m)

/-- Names a planner may use for a mode besides its own. -/
def aliases : List (String × TransitionMode) :=
  [("cut", snap), ("fade", crossfade), ("blackout", fadeThroughBlack)]

/-- The mode a planner names, in any case and with blanks around it. -/
def parse (s : String) : Except UnknownName TransitionMode :=
  let key := (Text.trim s).toLower
  match (names ++ aliases).lookup key with
  | some m => .ok m
  | none => .error (.transitionMode key)

end TransitionMode

/-- A transition as it is asked for; no duration means the usual one. -/
structure Transition where
  mode : TransitionMode
  durationMs : Nat
  deriving DecidableEq, Repr

/-- Where in the show nothing happens. -/
inductive GapKind where
  /-- Before the first effect. -/
  | start
  /-- Between two effects. -/
  | between
  /-- After the last effect. -/
  | finish
  deriving DecidableEq, Repr

namespace GapKind

def name : GapKind → String
  | start => "start"
  | between => "inter_section"
  | finish => "end"

def names : List (String × GapKind) := [start, between, finish].map fun k => (k.name, k)

end GapKind

/-- The place of an effect in the show. -/
structure Boundary where
  isSectionStart : Bool := false
  isSectionEnd : Bool := false
  sectionId : String := ""
  entry : Option Transition := none
  exit : Option Transition := none
  isGapFill : Bool := false
  gapKind : Option GapKind := none
  deriving DecidableEq, Repr

/-- One head's channels for a span of time. -/
structure Effect (α : Type) where
  fixtureId : String
  startMs : Nat
  endMs : Nat
  channels : ChannelSet α
  boundary : Boundary
  label : String
  metadata : List (String × Json)

/-- The length of an effect; nothing where it ends before it starts. -/
def Effect.durationMs {α : Type} (e : Effect α) : Nat := e.endMs - e.startMs

/-- The transition that governs the boundary between two effects: the exit
of the first, or else the entry of the second. -/
def Effect.transitionTo {α : Type} (e next : Effect α) : Option Transition :=
  e.boundary.exit.or next.boundary.entry

end MovingLight
