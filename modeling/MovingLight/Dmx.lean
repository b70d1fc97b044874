import MovingLight.Scalar

/-!
# DMX levels and the windows they move in

A DMX channel carries a byte. Curves are computed in scalars and become
bytes only where a level is held for a whole effect (`Dmx.level`).

A fixture may be told to keep a channel inside a window. Two forms of it
occur: `Limits` is what a rig says, and may run backwards; a `Window` is a
pair in order, and only a window limits a value. `Limits.window?` is the one
way from the first to the second, so a reversed pair never limits anything
by accident.
-/

namespace MovingLight

/-- The bounds a rig gives for a channel, in either order. -/
structure Limits where
  min : UInt8
  max : UInt8
  deriving DecidableEq, Repr

/-- A window of levels: its lower end does not lie above its upper end. -/
structure Window where
  lo : UInt8
  hi : UInt8
  lo_le_hi : lo ≤ hi
  deriving DecidableEq, Repr

namespace Limits

/-- Every level. -/
def full : Limits := ⟨0, 255⟩

/-- The window of limits that run forwards. -/
def window? (l : Limits) : Option Window :=
  if h : l.min ≤ l.max then some ⟨l.min, l.max, h⟩ else none

end Limits

namespace Window

/-- Every level. -/
def full : Window := ⟨0, 255, by decide⟩

/-- The window between two levels, whichever is named first. -/
def between (a b : UInt8) : Window :=
  if h : a ≤ b then ⟨a, b, h⟩
  else ⟨b, a, by
    rcases UInt8.le_total a b with h' | h'
    · exact absurd h' h
    · exact h'⟩

variable {α : Type} [Scalar α]

/-- A value brought into the window. -/
def clamp (w : Window) (x : α) : α :=
  Scalar.clamp (w.lo.toNat : α) (w.hi.toNat : α) x

end Window

namespace Limits

variable {α : Type} [Scalar α]

/-- The number of steps between the bounds; none where they are reversed. -/
def span (l : Limits) : α :=
  Scalar.greater ((l.max.toNat : α) - (l.min.toNat : α)) 0

/-- The level at a percentage of the window. A percentage outside the scale
counts as the nearer end of it, and reversed limits have only their lower
bound. -/
def atPercent (l : Limits) (percent : α) : α :=
  (l.min.toNat : α) + Scalar.clampUnit (percent / 100) * l.span

end Limits

/-- The byte nearest to a value; an indefinite value is dark. -/
def Dmx.level {α : Type} [Scalar α] (x : α) : UInt8 :=
  (Scalar.toNat (Scalar.clamp 0 255 (Scalar.round x))).toUInt8

end MovingLight
