import MovingLight.Effect

/-!
# Overlaps — a later effect wins over the tail of an earlier one

The effects of one head are laid out in order of their start. An effect that
starts inside an earlier one cuts it short; one that starts no later than it
replaces it. What is cut short keeps the values it had, so a wave is written
out in points. Effects without duration are left out.
-/

namespace MovingLight

variable {α : Type} [Scalar α]

/-- Effects in order of their start, those of one start in the given order. -/
def Timeline.sorted (effects : List (Effect α)) : List (Effect α) :=
  effects.mergeSort fun a b => a.startMs ≤ b.startMs

/-- The effect cut short at a time inside it, its channels with it. -/
def Effect.cutAt (e : Effect α) (time count : Nat) : Effect α :=
  let ratio : α := ((time - e.startMs : Nat) : α) / ((e.endMs - e.startMs : Nat) : α)
  { e with endMs := time, channels := e.channels.truncated ratio count }

/-- Makes room for an effect from a given time on: `laid` holds what has been
laid out, the latest first. -/
def Timeline.roomAt (time count : Nat) : List (Effect α) → List (Effect α)
  | [] => []
  | last :: rest =>
    if last.endMs ≤ time then last :: rest
    else if time ≤ last.startMs then roomAt time count rest
    else last.cutAt time count :: rest

/-- Lays out one more effect. -/
def Timeline.lay (count : Nat) (laid : List (Effect α)) (e : Effect α) : List (Effect α) :=
  if e.endMs ≤ e.startMs then laid else e :: roomAt e.startMs count laid

/-- The effects of one head without overlaps, in order. -/
def Timeline.resolveOverlaps (count : Nat) (effects : List (Effect α)) : List (Effect α) :=
  ((Timeline.sorted effects).foldl (Timeline.lay count) []).reverse

end MovingLight
