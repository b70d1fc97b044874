import MovingLight.Curve

/-!
# Monotone interpolation — smooth curves that never overshoot

A curve of a few points is drawn smoothly by a cubic between each two
neighbouring points. The slope at a point is chosen so that no cubic leaves
the range of its two ends: level at a local extremum, elsewhere a weighted
harmonic mean of the two neighbouring secants, and at the ends of the curve
a three-point estimate cut back where it would turn the curve around.

Only points with finite time and value count. They are sorted by time, and
of points closer together than a millionth the last one gives the value.
-/

namespace MovingLight

/-- A point of a smooth curve and its slope there. -/
structure Knot (α : Type) where
  t : α
  value : α
  slope : α
  deriving DecidableEq, Repr

/-- A smooth curve: at least one knot, in order of time. -/
structure Interpolant (α : Type) where
  first : Knot α
  rest : List (Knot α)
  deriving DecidableEq, Repr

namespace Interpolant

variable {α : Type} [Scalar α]

/-! ## Points -/

/-- The points that count, in order of time. -/
def usable (c : Curve α) : List (CurvePoint α) :=
  (c.filter fun p => Scalar.isFinite p.t && Scalar.isFinite p.value).mergeSort
    fun p q => Scalar.totalLe p.t q.t

/-- Joins points that lie closer to `p` than a millionth into it: the time
stays, the value is that of the last. -/
def joined (p : CurvePoint α) : List (CurvePoint α) → List (CurvePoint α)
  | [] => [p]
  | q :: rest =>
    if Scalar.abs (q.t - p.t) < 0.000001 then joined ⟨p.t, q.value⟩ rest
    else p :: joined q rest

/-- The points a curve is drawn through. -/
def support (c : Curve α) : List (CurvePoint α) :=
  match usable c with
  | [] => []
  | p :: rest => joined p rest

/-! ## Slopes -/

/-- The way from one point to the next: its width and its secant. -/
structure Span (α : Type) where
  width : α
  secant : α

/-- The spans between neighbouring points. -/
def spans : List (CurvePoint α) → List (Span α)
  | p :: q :: rest => ⟨q.t - p.t, (q.value - p.value) / (q.t - p.t)⟩ :: spans (q :: rest)
  | _ => []

/-- The slope between two spans. -/
def innerSlope (a b : Span α) : α :=
  if a.secant * b.secant ≤ 0 then 0
  else
    let w1 := 2 * b.width + a.width
    let w2 := b.width + 2 * a.width
    (w1 + w2) / (w1 / a.secant + w2 / b.secant)

/-- The slope at the outer end of the span `a`, whose neighbour is `b`. -/
def endSlope (a b : Span α) : α :=
  let d := ((2 * a.width + b.width) * a.secant - a.width * b.secant) / (a.width + b.width)
  if !Scalar.equal (Scalar.signum d) (Scalar.signum a.secant) || Scalar.equal a.secant 0 then 0
  else if !Scalar.equal (Scalar.signum a.secant) (Scalar.signum b.secant)
      && 3 * Scalar.abs a.secant < Scalar.abs d then 3 * a.secant
  else d

/-- The slopes at the inner points, and at the last one. -/
def slopesAfter : Span α → List (Span α) → List α
  | _, [] => []
  | a, [b] => [innerSlope a b, endSlope b a]
  | a, b :: rest => innerSlope a b :: slopesAfter b rest

/-- The slope at every point, given the spans between them. -/
def slopes : List (Span α) → List α
  | [] => [0]
  | [a] => [a.secant, a.secant]
  | a :: b :: rest => endSlope a b :: slopesAfter a (b :: rest)

/-! ## Drawing -/

/-- The smooth curve through the points of a curve; none where no point
counts. -/
def ofCurve? (c : Curve α) : Option (Interpolant α) :=
  let points := support c
  match points.zipWith (fun p s => ⟨p.t, p.value, s⟩) (slopes (spans points)) with
  | [] => none
  | k :: rest => some ⟨k, rest⟩

/-- The cubic between two knots with their slopes. -/
def cubic (a b : Knot α) (x : α) : α :=
  let h := b.t - a.t
  let s := (x - a.t) / h
  let s2 := s * s
  let s3 := s2 * s
  let h00 := 2 * s3 - 3 * s2 + 1
  let h10 := s3 - 2 * s2 + s
  let h01 := -2 * s3 + 3 * s2
  let h11 := s3 - s2
  h00 * a.value + h10 * h * a.slope + h01 * b.value + h11 * h * b.slope

/-- The value at `x` on the last stretch, from knot `a` on, that starts no
later than `x`. -/
def valueFrom (x : α) (a : Knot α) : List (Knot α) → α
  | [] => a.value
  | [b] => cubic a b x
  | b :: rest => if b.t ≤ x then valueFrom x b rest else cubic a b x

/-- The last knot. -/
def last (f : Interpolant α) : Knot α := f.rest.getLastD f.first

/-- The value at a time; level before the first knot and after the last. -/
def valueAt (f : Interpolant α) (x : α) : α :=
  if f.rest.isEmpty ∨ x ≤ f.first.t then f.first.value
  else if f.last.t ≤ x then f.last.value
  else valueFrom x f.first f.rest

end Interpolant

/-- A curve drawn smoothly through `count` evenly spaced times, at least two;
none where no point counts. The first and the last value are those of the
first and the last point, wherever these lie. -/
def Curve.smooth? {α : Type} [Scalar α] (c : Curve α) (count : Nat) : Option (Curve α) :=
  let count := max count 2
  (Interpolant.ofCurve? c).map fun f =>
    (List.range count).map fun i =>
      let t := Scalar.evenTime i count
      ⟨t, if i = 0 then f.first.value else if i = count - 1 then f.last.value else f.valueAt t⟩

end MovingLight
