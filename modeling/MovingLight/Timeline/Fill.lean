import MovingLight.Rig
import MovingLight.Timeline.Gap
import MovingLight.Timeline.Overlap
import MovingLight.Transition

/-!
# Filling — a head is never left alone

Once its overlaps are resolved, every gap of a head is filled. Before its
first effect and after its last it rests in the dark. Between two effects it
goes from the end of the one to the start of the other: by way of the
resting pose where the gap is large, and otherwise through black if that is
what the transition asks for, or straight.
-/

namespace MovingLight

namespace Timeline

variable {α : Type} [Scalar α]

/-- The way across a small gap. -/
def smallGapMode (before after : Effect α) : TransitionMode :=
  match before.transitionTo after with
  | some ⟨.fadeThroughBlack, _⟩ => .fadeThroughBlack
  | _ => .crossfade

/-- The way across a gap: a mode, the anchors on both sides and the kind of
gap it is taken for. -/
def crossing? (home : Anchor α) (state : GapState) (before after : Option (Effect α)) :
    Option (TransitionMode × Anchor α × Anchor α × GapKind) :=
  match state, before, after with
  | .sequenceStart, _, _ => some (.crossfade, home, home, .start)
  | .sequenceEnd, _, _ => some (.crossfade, home, home, .finish)
  | .large, some p, some n =>
    some (.gapFill, .endOf p.channels, .startOf n.channels, .between)
  | .small, some p, some n =>
    some (smallGapMode p n, .endOf p.channels, .startOf n.channels, .between)
  | _, _, _ => none

/-- The effects that fill one gap of a head. -/
def fillGap (settings : Settings α) (f : Fixture α) (effects : List (Effect α)) (g : Gap) :
    List (Effect α) :=
  let before := before? effects g
  let after := after? effects g
  let home := f.darkHome settings
  match crossing? home (.classify g before after settings.largeGapMs) before after with
  | none => []
  | some (mode, source, target, kind) =>
    Passage.effects
      { fixtureId := f.id
        sectionId := g.sectionId
        gapKind := some kind
        startMs := g.startMs
        endMs := g.endMs
        source, target, home
        split := settings.gapSplit
        shutterClosed := settings.shutterClosed }
      mode

/-- The effects of a head without overlaps and with its gaps filled, in
order of their start. -/
def fill (settings : Settings α) (f : Fixture α) (songMs : Nat) (effects : List (Effect α)) :
    List (Effect α) :=
  let laid := resolveOverlaps settings.curvePoints effects
  let found := gaps songMs settings.minGapMs laid
  if found.isEmpty then laid
  else sorted (laid ++ found.flatMap (fillGap settings f laid))

end Timeline

end MovingLight
