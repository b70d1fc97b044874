import MovingLight.Rig.Axis

/-!
# Rigs — the heads of a show, from left to right

A `Rig` is an ordered list of heads, and the order is the stage: the first
head hangs at the left edge. Beside the heads it carries named groups of
their ids. Seven groups follow from the order alone (`builtinGroups`) and
are filled in unless the rig configures a group of that name itself.
-/

namespace MovingLight

/-- The channel numbers of a head, counted from its start address. -/
structure ChannelMap where
  pan : Nat := 1
  tilt : Nat := 3
  dimmer : Nat := 6
  shutter : Option Nat := some 7
  color : Option Nat := some 8
  gobo : Option Nat := some 9
  red : Option Nat := none
  green : Option Nat := none
  blue : Option Nat := none
  deriving DecidableEq, Repr

/-- One head as it is patched. -/
structure Fixture (α : Type) where
  id : String
  label : Option String := none
  pan : Axis := .defaultPan
  tilt : Axis := .defaultTilt
  dimmer : Limits := .full
  channels : ChannelMap := {}
  /-- Where the head rests; the settings say so for a head that does not. -/
  resting : Option (Pose α) := none
  deriving DecidableEq, Repr

/-- The name a head goes by. -/
def Fixture.displayName {α : Type} (f : Fixture α) : String := f.label.getD f.id

/-- A group of heads: its name and the ids of its members. -/
abbrev NamedGroup := String × List String

/-- The heads of a show, from left to right, and their groups. -/
structure Rig (α : Type) where
  fixtures : List (Fixture α)
  groups : List NamedGroup := []
  deriving DecidableEq, Repr

namespace Rig

variable {α : Type}

def size (r : Rig α) : Nat := r.fixtures.length

def ids (r : Rig α) : List String := r.fixtures.map (·.id)

/-- The first head of a given id. -/
def get? (r : Rig α) (id : String) : Option (Fixture α) := r.fixtures.find? (·.id == id)

/-- The place of the first head of a given id. -/
def index? (r : Rig α) (id : String) : Option Nat := r.fixtures.findIdx? (·.id == id)

/-! ## Groups -/

/-- Every second item, from the first on. -/
def everyOther {β : Type} : List β → List β
  | [] => []
  | [x] => [x]
  | x :: _ :: rest => x :: everyOther rest

/-- The left half of the stage. -/
def leftHalf (ids : List String) : List String := ids.take (ids.length / 2)

/-- The right half of the stage. -/
def rightHalf (ids : List String) : List String := ids.drop (ids.length - ids.length / 2)

/-- The middle of the stage: one head, or two where the number is even. -/
def middle (ids : List String) : List String :=
  let half := ids.length / 2
  if ids.length % 2 = 1 then (ids.drop half).take 1 else (ids.drop (half - 1)).take 2

/-- Both ends of the stage. -/
def ends (ids : List String) : List String := ids.head?.toList ++ ids.tail.getLast?.toList

/-- The groups that follow from the order of the heads. Heads are counted
from one, so the first is odd. -/
def builtinGroups (ids : List String) : List NamedGroup :=
  [("left", leftHalf ids),
    ("right", rightHalf ids),
    ("odd", everyOther ids),
    ("even", everyOther ids.tail),
    ("center", middle ids),
    ("outer", ends ids),
    ("inner", ids.filter fun id => !(ends ids).contains id)]

/-- The given groups, and of the others those whose name is not taken. -/
def addMissing (groups more : List NamedGroup) : List NamedGroup :=
  more.foldl (fun acc g => if acc.any (·.1 == g.1) then acc else acc ++ [g]) groups

/-- The rig with its built-in groups. A configured group is never replaced. -/
def fillGroups (r : Rig α) : Rig α :=
  { r with groups := addMissing r.groups (builtinGroups r.ids) }

/-- A rig of the given heads, with nothing but the built-in groups. -/
def ofFixtures (fixtures : List (Fixture α)) : Rig α := fillGroups { fixtures }

end Rig

end MovingLight
