import MovingLight.Error
import MovingLight.Scalar
import MovingLight.Text.Blank

/-!
# Movements — what a head is asked to do

A `Movement` names a pattern and says how strongly it is carried out. A
formation may change it for each head: a phase, a role in tilt and offsets
in degrees. A movement is a value; a changed one never touches another.
-/

namespace MovingLight

/-- How strongly a pattern is carried out. -/
inductive Intensity where
  | smooth
  | slow
  | moderate
  | fast
  | dramatic
  deriving DecidableEq, Repr

namespace Intensity

def name : Intensity → String
  | smooth => "smooth"
  | slow => "slow"
  | moderate => "moderate"
  | fast => "fast"
  | dramatic => "dramatic"

/-- Every tier, from the gentlest up. -/
def all : List Intensity := [smooth, slow, moderate, fast, dramatic]

/-- Every tier with its name. -/
def names : List (String × Intensity) := all.map fun i => (i.name, i)

/-- Names a planner may use for a tier besides its own. -/
def aliases : List (String × Intensity) := [("medium", moderate), ("intense", dramatic)]

/-- The place of a tier among all, counted from one. -/
def rank : Intensity → Nat
  | smooth => 1
  | slow => 2
  | moderate => 3
  | fast => 4
  | dramatic => 5

/-- The tier a planner names, in any case and with blanks around it. -/
def parse (s : String) : Except UnknownName Intensity :=
  let key := (Text.trim s).toLower
  match (names ++ aliases).lookup key with
  | some i => .ok i
  | none => .error (.intensity key)

/-- The tier a planner names, if it is one. -/
def ofText? (s : String) : Option Intensity := (parse s).toOption

end Intensity

/-- Which half of an alternating pair the tilt of a head follows. -/
inductive TiltRole where
  | up
  | down
  deriving DecidableEq, Repr

namespace TiltRole

def name : TiltRole → String
  | up => "up"
  | down => "down"

def names : List (String × TiltRole) := [("up", up), ("down", down)]

end TiltRole

/-- One movement, possibly changed for a single head. -/
structure Movement (α : Type) where
  pattern : String
  intensity : Intensity
  /-- Width of the swing as a fraction of all levels, instead of the tier's. -/
  amplitude : Option α
  /-- Cycles in one effect, instead of the tier's. -/
  frequency : Option α
  phaseDeg : α
  tiltRole : Option TiltRole
  panOffsetDeg : α
  tiltOffsetDeg : α
  deriving DecidableEq, Repr

/-- The patterns that stand still. -/
def isStill (pattern : String) : Bool := ["hold", "static", "full"].contains pattern

namespace Movement

variable {α : Type} [Scalar α]

/-- A pattern as its tier has it, the same for every head. -/
def ofPattern (pattern : String) (intensity : Intensity) : Movement α :=
  ⟨pattern, intensity, none, none, 0, none, 0, 0⟩

/-- Standing still. -/
def hold : Movement α := ofPattern "hold" .moderate

/-- The movement does not move. -/
def still (m : Movement α) : Bool := isStill m.pattern

/-- The movement with another phase, reduced to one turn. -/
def withPhase (m : Movement α) (deg : α) : Movement α :=
  { m with phaseDeg := Scalar.emod deg 360 }

/-- The movement with its offsets moved by the given degrees. -/
def offsetBy (m : Movement α) (pan tilt : α) : Movement α :=
  { m with panOffsetDeg := m.panOffsetDeg + pan, tiltOffsetDeg := m.tiltOffsetDeg + tilt }

/-- Two numbers are further apart than a ten-thousandth. -/
def apart (x y : α) : Bool := 0.0001 < Scalar.abs (x - y)

/-- The movements put heads at different places, or at different times. -/
def differsSpatially (m n : Movement α) : Bool :=
  apart m.panOffsetDeg n.panOffsetDeg || apart m.tiltOffsetDeg n.tiltOffsetDeg ||
    apart m.phaseDeg n.phaseDeg || m.tiltRole != n.tiltRole

end Movement

end MovingLight
