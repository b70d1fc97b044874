/-!
# What can go wrong

A show fails for one of a few reasons, and each is a constructor; the
wording is `ShowError.message` and nothing else.
-/

namespace MovingLight

/-- Why a document could not be read, a target not be found, or a show not
be rendered. -/
inductive ShowError where
  /-- No section of the plan can be rendered. -/
  | emptyPlan
  /-- The rig has no heads. -/
  | noFixtures
  /-- A target names no head, no group and no range. -/
  | unknownTarget (name : String)
  /-- A target is no target at all. -/
  | invalidTarget (spec reason : String)
  /-- A document is missing, or is no text. -/
  | unreadable
  /-- A document does not have the form it should have. -/
  | malformed
  deriving DecidableEq, Repr

/-- The message a reader sees. -/
def ShowError.message : ShowError → String
  | .emptyPlan => "plan has no renderable sections"
  | .noFixtures => "fixture group is empty"
  | .unknownTarget name => "unknown target '" ++ name ++ "'"
  | .invalidTarget spec reason => "invalid target spec '" ++ spec ++ "': " ++ reason
  | .unreadable => "failed to read the document"
  | .malformed => "failed to parse json"

/-- A name that is none of those a kind of thing has. -/
inductive UnknownName where
  | intensity (name : String)
  | transitionMode (name : String)
  deriving DecidableEq, Repr

/-- The message a reader sees. -/
def UnknownName.message : UnknownName → String
  | .intensity name => "unknown intensity tier '" ++ name ++ "'"
  | .transitionMode name => "unknown transition mode '" ++ name ++ "'"

end MovingLight
