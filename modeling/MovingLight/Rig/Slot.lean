import MovingLight.Scalar

/-!
# Slots — where a head stands among those selected

Formations place heads by their slot: the selection is spread evenly over
the stage, the leftmost head at `0` and the rightmost at `1`, and a lone head
in the middle.
-/

namespace MovingLight

/-- The place of one head in a selection. -/
structure Slot (α : Type) where
  index : Nat
  count : Nat
  /-- From zero, at the left edge, to one. -/
  position : α
  /-- From minus one, at the left edge, to one; zero in the middle. -/
  signedDistance : α
  deriving Repr

namespace Slot

variable {α : Type} [Scalar α]

/-- The `index`-th of `count` slots. -/
def ofIndex (count index : Nat) : Slot α :=
  let position : α := if count ≤ 1 then 0.5 else Scalar.evenTime index count
  { index, count, position, signedDistance := (position - 0.5) * 2 }

/-- The slots of a selection, from left to right. -/
def all (count : Nat) : List (Slot α) := (List.range count).map (ofIndex count)

/-- How far the slot lies from the middle. -/
def distance (s : Slot α) : α := Scalar.abs s.signedDistance

/-- Minus one in the left half, one in the right half, zero in the middle. -/
def side (s : Slot α) : α :=
  if Scalar.abs s.signedDistance < 0.000001 then 0 else Scalar.signum s.signedDistance

end Slot

/-- A value read off an evenly spaced table at a position between zero and
one, in straight lines between the entries. -/
def presetAt {α : Type} [Scalar α] (preset : List α) (position : α) : α :=
  match preset with
  | [] => 0
  | [v] => v
  | _ =>
    let x := Scalar.clampUnit position * ((preset.length - 1 : Nat) : α)
    let lower := min (Scalar.toNat (Scalar.floor x)) (preset.length - 2)
    let a := preset.getD lower 0
    let b := preset.getD (lower + 1) 0
    Scalar.between a b (x - (lower : α))

end MovingLight
