/-!
# Scalars — the numbers a show is computed in

Levels, angles, times within an effect and fractions of a section are all
*scalars*. The library never fixes what a scalar is: every definition works
over any type with the operations of `Scalar`, and two kinds of type carry
them.

* The machine reading (`MovingLight.Scalar.Single`): single precision, with
  its rounding, its signed zeros and its infinities. The program runs on it.
* An exact reading: any ordered field with a floor, where sums and products
  are what they are on paper. Statements about curves that would be false by
  half a unit in the last place are statements about it.

Nothing below assumes a law. A comparison may therefore fail in both
directions (an indefinite number is neither below nor above another), and
the derived operations are written so that they say what happens then:
`lesser` and `greater` prefer the other operand, `clamp` keeps the number it
was given.
-/

namespace MovingLight

/-- The operations a show is computed with.

Arithmetic and order come first; the rest is what the rules of the domain
need besides: whole numbers in and out, the two waves, and the few facts a
machine number shows that an exact one does not. -/
class Scalar (α : Type) extends Add α, Sub α, Mul α, Div α, Neg α, LT α, LE α, NatCast α,
    OfScientific α where
  /-- Whole literals. -/
  literal : ∀ n : Nat, OfNat α n
  decLt : DecidableLT α
  decLe : DecidableLE α
  /-- Sameness of representation; finer than `≤` both ways where a zero has a sign. -/
  decEq : DecidableEq α
  /-- Half a turn, in radians. -/
  pi : α
  /-- One degree, in radians. -/
  degree : α
  sin : α → α
  cos : α → α
  abs : α → α
  /-- One with the sign of the number; a positive zero counts as positive. -/
  signum : α → α
  /-- The largest whole number not above. -/
  floor : α → α
  /-- The nearest whole number, a half going away from zero. -/
  round : α → α
  /-- What is left of the first number after whole multiples of the second,
  brought to `0 ≤ r` by adding the size of the second once. -/
  emod : α → α → α
  /-- Neither infinite nor indefinite. -/
  isFinite : α → Bool
  /-- The largest finite number, where there is one. -/
  maxFinite : Option α
  /-- The neighbour of a positive number towards zero. -/
  below : α → α
  /-- The total order used for sorting: that of `≤`, with a negative zero
  before a positive one. -/
  totalLe : α → α → Bool
  /-- Whole part as a natural number; zero below zero and for an indefinite
  number, and at most the largest 64-bit word. -/
  toNat : α → Nat
  /-- The nearest scalar to a double. -/
  ofFloat : Float → α
  /-- The double a scalar is written out as. -/
  toFloat : α → Float
  /-- The given fraction of a whole number of units, to the nearest unit. -/
  share : α → Nat → Nat
  /-- Decimal text with a fixed number of places, a half going to the even digit. -/
  fixed : Nat → α → String

namespace Scalar

variable {α : Type} [Scalar α]

instance (n : Nat) : OfNat α n := Scalar.literal n
instance : DecidableLT α := Scalar.decLt
instance : DecidableLE α := Scalar.decLe
instance : DecidableEq α := Scalar.decEq
instance : Inhabited α := ⟨0⟩

/-- Equality of value: a zero equals a zero of the other sign, and an
indefinite number equals nothing. -/
def equal (x y : α) : Bool := x ≤ y ∧ y ≤ x

/-! ## Choosing and limiting -/

/-- The smaller of two numbers: the second of two equal ones, and the other
one where one of them is indefinite. -/
def lesser (x y : α) : α :=
  if x < y then x else if y ≤ y then y else x

/-- The larger of two numbers, with the same preference as `lesser`. -/
def greater (x y : α) : α :=
  if y < x then x else if y ≤ y then y else x

/-- A number brought into `[lo, hi]`. An indefinite number stays as it is. -/
def clamp (lo hi x : α) : α :=
  if x < lo then lo else if hi < x then hi else x

/-- A number brought into the unit interval. -/
def clampUnit (x : α) : α := clamp 0 1 x

/-- The gap between one and the next representable number above it, in single
precision: `2⁻²³`. Differences no larger count as none. -/
def epsilon : α := 1 / 8388608

/-- The smallest number a running minimum starts from when nothing has been
seen: the first value itself, unless it lies above every finite number. -/
def runningMin (acc : Option α) (x : α) : Option α :=
  match acc with
  | none => some x
  | some m => some (lesser m x)

/-- The counterpart of `runningMin` for the maximum. -/
def runningMax (acc : Option α) (x : α) : Option α :=
  match acc with
  | none => some x
  | some m => some (greater m x)

/-- The nearest scalar to a whole number. -/
def ofInt (n : Int) : α := if n < 0 then -((n.natAbs : Nat) : α) else ((n.natAbs : Nat) : α)

/-! ## Even spacing -/

/-- The `i`-th of `n` evenly spaced times: `0` for the first and `1` for the
last of two or more. -/
def evenTime (i n : Nat) : α := (i : α) / ((n - 1 : Nat) : α)

/-- The point a fraction `u` of the way from `x` to `y`. -/
def between (x y u : α) : α := x + (y - x) * u

end Scalar

end MovingLight
