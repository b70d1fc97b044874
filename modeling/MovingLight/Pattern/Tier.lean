import MovingLight.Movement

/-!
# Tiers — what an intensity means

A tier gives a movement its width and speed, and a dimmer its range and
speed. These are tables of the domain and nothing is computed from anything.
-/

namespace MovingLight

/-- The width and the speed of a movement. -/
structure MovementTier (α : Type) where
  /-- Peak to peak, as a fraction of all levels. -/
  amplitude : α
  /-- Cycles in one effect. -/
  cycles : α

/-- The range and the speed of a dimmer. -/
structure DimmerTier (α : Type) where
  minPercent : α
  maxPercent : α
  /-- Cycles in one effect. -/
  cycles : α

variable {α : Type} [Scalar α]

def Intensity.movementTier : Intensity → MovementTier α
  | smooth => ⟨0.08, 0.5⟩
  | slow => ⟨0.12, 1⟩
  | moderate => ⟨0.2, 2⟩
  | fast => ⟨0.3, 4⟩
  | dramatic => ⟨0.4, 6⟩

def Intensity.dimmerTier : Intensity → DimmerTier α
  | smooth => ⟨40, 80, 0.5⟩
  | slow => ⟨30, 90, 1⟩
  | moderate => ⟨20, 100, 2⟩
  | fast => ⟨10, 100, 4⟩
  | dramatic => ⟨0, 100, 8⟩

end MovingLight
