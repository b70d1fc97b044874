import MovingLight.Json.Scalar
import MovingLight.Text.Numeral

/-!
# Formation parameters

A plan gives a formation its parameters as a free JSON object. Each reader
here takes a parameter in the forms a planner may write it in and has nothing
to say where the parameter is missing or unreadable, so that a formation can
fall back on its own default.
-/

namespace MovingLight

/-- The number text or digits stand for, read as a double first. -/
def Text.double? (s : String) : Option Float :=
  match Text.numeral? (Text.trim s) with
  | some (.finite negative mantissa exponent) =>
    let size := Float.ofScientific mantissa (exponent < 0) exponent.natAbs
    some (if negative then -size else size)
  | _ => none

/-- The parameters of a formation. -/
abbrev Params := List (String × Json)

namespace Params

/-- A parameter as it is written. -/
def get? (p : Params) (key : String) : Option Json := List.lookup key p

/-- The parameter is there, readable or not. -/
def has (p : Params) (key : String) : Bool := (p.get? key).isSome

variable {α : Type} [Scalar α]

/-- A finite number, written as a number or as text. -/
def number? (p : Params) (key : String) : Option α :=
  let written : Option Float :=
    match p.get? key with
    | some (.number (some n)) => some n.toFloat
    | some (.string (some s)) => Text.double? s
    | _ => none
  (written.map Scalar.ofFloat).filter Scalar.isFinite

def number (p : Params) (key : String) (default : α) : α := (p.number? key).getD default

/-- A text. -/
def text (p : Params) (key default : String) : String :=
  match p.get? key with
  | some (.string (some s)) => s
  | _ => default

/-- A choice between yes and no. A number means yes above one half, and of
texts only three do. -/
def flag (p : Params) (key : String) (default : Bool) : Bool :=
  match p.get? key with
  | some (.bool b) => b
  | some (.number (some n)) => 0.5 < n.toFloat
  | some (.string (some s)) => ["true", "yes", "1"].contains s
  | _ => default

/-- A 64-bit word, written as a whole number or as text. -/
def whole? (p : Params) (key : String) : Option Nat :=
  match p.get? key with
  | some (.number (some (.whole n))) => if 0 ≤ n then some n.toNat else none
  | some (.string (some s)) => Text.whole? Text.maxWord (Text.trim s)
  | _ => none

end Params

end MovingLight
