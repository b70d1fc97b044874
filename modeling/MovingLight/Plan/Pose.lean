import MovingLight.Rig.Axis
import MovingLight.Text.Blank

/-!
# Poses in plans

A step starts from a pose, given in degrees or by a name every rig
understands. A name nobody knows leaves the head at its resting pose.
-/

namespace MovingLight

/-- A pose as a plan refers to it. -/
inductive PoseRef (α : Type) where
  | named (name : String)
  | explicit (pose : Pose α)
  deriving DecidableEq, Repr

namespace Pose

variable {α : Type} [Scalar α]

/-- The poses with a name. -/
def table : List (String × Pose α) :=
  [("home", ⟨0, 0⟩),
    ("center", ⟨0, 0⟩),
    ("forward", ⟨0, 0⟩),
    ("audience", ⟨0, -20⟩),
    ("up", ⟨0, 90⟩),
    ("ceiling", ⟨0, 90⟩),
    ("down", ⟨0, -60⟩),
    ("floor", ⟨0, -60⟩),
    ("stage_left", ⟨-90, 0⟩),
    ("stage_right", ⟨90, 0⟩),
    ("backdrop", ⟨180, 20⟩)]

/-- The pose of a name, in any case and with blanks around it. -/
def ofName? (name : String) : Option (Pose α) := table.lookup (Text.trim name).toLower

/-- The pose a plan refers to, or the resting pose. -/
def resolve (ref : Option (PoseRef α)) (resting : Pose α) : Pose α :=
  match ref with
  | none => resting
  | some (.explicit pose) => pose
  | some (.named name) => (ofName? name).getD resting

end Pose

end MovingLight
