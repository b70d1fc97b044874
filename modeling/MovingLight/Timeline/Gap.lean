import MovingLight.Effect

/-!
# Gaps — where a head has nothing to do

`Timeline.gaps` lists the intervals of a song in which no effect of a head
is active, for effects in order of their start. An interval shorter than the
least length is noise and not a gap; the least length is never nothing.
-/

namespace MovingLight

/-- An interval without effect, open at its end. -/
structure Gap where
  startMs : Nat
  endMs : Nat
  sectionId : String
  kind : GapKind
  deriving DecidableEq, Repr

def Gap.durationMs (g : Gap) : Nat := g.endMs - g.startMs

namespace Timeline

variable {α : Type}

/-- The gaps from a time on, up to which everything is covered or has been
listed. `previous` is the last effect that was passed. -/
def gapsFrom (songMs least : Nat) (time : Nat) (previous : Option (Effect α)) :
    List (Effect α) → List Gap
  | [] =>
    if time + least ≤ songMs then
      [⟨time, songMs, (previous.map (·.boundary.sectionId)).getD "", .finish⟩]
    else []
  | e :: rest =>
    let later := gapsFrom songMs least (max time e.endMs) (some e) rest
    if time + least ≤ e.startMs then
      ⟨time, e.startMs, e.boundary.sectionId, if previous.isSome then .between else .start⟩ :: later
    else later

/-- The gaps of one head during a song. A head without effects has one gap,
the whole song. -/
def gaps (songMs minGapMs : Nat) (effects : List (Effect α)) : List Gap :=
  if effects.isEmpty then
    if songMs = 0 then [] else [⟨0, songMs, "", .start⟩]
  else gapsFrom songMs (max minGapMs 1) 0 none effects

/-- The last effect that has ended when a gap starts. -/
def before? (effects : List (Effect α)) (g : Gap) : Option (Effect α) :=
  effects.reverse.find? fun e => e.endMs ≤ g.startMs

/-- The first effect that has not started when a gap ends. -/
def after? (effects : List (Effect α)) (g : Gap) : Option (Effect α) :=
  effects.find? fun e => g.endMs ≤ e.startMs

end Timeline

/-- How a gap is to be treated. -/
inductive GapState where
  /-- Nothing comes before. -/
  | sequenceStart
  /-- Nothing comes after. -/
  | sequenceEnd
  | large
  | small
  deriving DecidableEq, Repr

namespace GapState

def name : GapState → String
  | sequenceStart => "SequenceStart"
  | sequenceEnd => "SequenceEnd"
  | large => "LargeGap"
  | small => "SmallGap"

/-- The state of a gap between two neighbours, where it has them. -/
def classify {α : Type} (g : Gap) (before after : Option (Effect α)) (largeGapMs : Nat) :
    GapState :=
  match before, after with
  | none, _ => sequenceStart
  | _, none => sequenceEnd
  | some _, some _ => if largeGapMs ≤ g.durationMs then large else small

end GapState

end MovingLight
