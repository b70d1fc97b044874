import MovingLight.Dmx

/-!
# The motorised axes of a head

Pan and tilt are aimed in degrees and driven in levels. An `Axis` says how
the two belong together: the full travel covers all 256 levels, one level
points the axis at zero degrees, and the levels may be confined to a window,
whose ends may be named in either order.
-/

namespace MovingLight

/-- Calibration of one axis. -/
structure Axis where
  /-- Total travel in degrees. -/
  rangeDeg : Nat
  /-- The level that points the axis at zero degrees. -/
  centerDmx : UInt8
  minDmx : UInt8
  maxDmx : UInt8
  deriving DecidableEq, Repr

/-- A direction in degrees. -/
structure Pose (α : Type) where
  panDeg : α
  tiltDeg : α
  deriving DecidableEq, Repr

namespace Axis

/-- The pan of a head nobody calibrated. -/
def defaultPan : Axis := ⟨540, 128, 0, 255⟩

/-- The tilt of a head nobody calibrated. -/
def defaultTilt : Axis := ⟨270, 128, 0, 255⟩

/-- The window the axis is confined to. -/
def window (a : Axis) : Window := .between a.minDmx a.maxDmx

variable {α : Type} [Scalar α]

/-- Levels for each degree; an axis without travel counts as one degree. -/
def dmxPerDegree (a : Axis) : α := 255 / ((max a.rangeDeg 1 : Nat) : α)

/-- The level that points the axis in a direction, inside its window. -/
def dmxOf (a : Axis) (degrees : α) : α :=
  a.window.clamp ((a.centerDmx.toNat : α) + degrees * a.dmxPerDegree)

/-- The direction a level points the axis in. -/
def degreesOf (a : Axis) (dmx : α) : α :=
  (dmx - (a.centerDmx.toNat : α)) / a.dmxPerDegree

end Axis

end MovingLight
