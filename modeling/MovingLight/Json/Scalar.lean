import MovingLight.Json
import MovingLight.Scalar

/-!
# Scalars in JSON

A scalar is read from any JSON number and written as one. An infinite or
indefinite scalar has no number of its own and is written as `null`.
-/

namespace MovingLight

variable {α : Type} [Scalar α]

/-- The nearest scalar to a JSON number. -/
def JsonNumber.toScalar : JsonNumber → α
  | .whole n => Scalar.ofInt n
  | .double x => Scalar.ofFloat x

/-- The nearest double to a JSON number. -/
def JsonNumber.toFloat : JsonNumber → Float
  | .whole n => Float.ofInt n
  | .double x => x

/-- A JSON number read as a scalar. -/
def Json.Place.scalar? (p : Json.Place) : Option α := p.number?.map JsonNumber.toScalar

/-- A scalar as a JSON value. -/
def Json.ofScalar (x : α) : Json :=
  if Scalar.isFinite x then .number (some (.double (Scalar.toFloat x))) else .null

end MovingLight
