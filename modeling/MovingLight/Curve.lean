import MovingLight.Scalar

/-!
# Point curves — values given at points in time

A curve lists values at times between `0`, the start of its effect, and `1`,
its end. Between two points it runs straight, and before the first and after
the last it stays level. Nothing obliges a curve to list its points in order;
where the times run backwards the first stretch that reaches the asked time
answers.
-/

namespace MovingLight

/-- A value at a time. -/
structure CurvePoint (α : Type) where
  t : α
  value : α
  deriving DecidableEq, Repr

/-- The points of a curve, in the order given. -/
abbrev Curve (α : Type) := List (CurvePoint α)

namespace Curve

variable {α : Type} [Scalar α]

/-- The values of `f` at `count` evenly spaced times, at least two. -/
def sampled (count : Nat) (f : α → α) : Curve α :=
  let count := max count 2
  (List.range count).map fun i =>
    let t := Scalar.evenTime i count
    ⟨t, f t⟩

/-- One value at `count` evenly spaced times, at least two. -/
def flat (value : α) (count : Nat) : Curve α := sampled count fun _ => value

/-- A straight line over the whole effect. -/
def linear (start finish : α) : Curve α := [⟨0, start⟩, ⟨1, finish⟩]

def firstValue? (c : Curve α) : Option α := c.head?.map (·.value)

def lastValue? (c : Curve α) : Option α := c.getLast?.map (·.value)

/-- The value at `t` past a point `p` that lies before it: on the first
stretch whose end is not before `t`, or level after the last point. -/
def valueAfter (t : α) (p : CurvePoint α) : Curve α → α
  | [] => p.value
  | n :: rest =>
    if t ≤ n.t then
      if Scalar.abs (n.t - p.t) < 0.000001 then n.value
      else Scalar.between p.value n.value (Scalar.clampUnit ((t - p.t) / (n.t - p.t)))
    else valueAfter t n rest

/-- The value at a time; a curve without points has none. -/
def valueAt? (c : Curve α) (t : α) : Option α :=
  match c with
  | [] => none
  | first :: rest => some (if t ≤ first.t then first.value else valueAfter t first rest)

/-- The value at a time, dark where there are no points. -/
def valueAt (c : Curve α) (t : α) : α := (c.valueAt? t).getD 0

/-- The leading part of a curve up to the time `ratio`, stretched over the
whole effect: the points before the cut, and one at the cut. A cut at the
very start leaves its value alone, and a curve without points stays without. -/
def truncated (c : Curve α) (ratio : α) : Curve α :=
  match c.valueAt? ratio with
  | none => c
  | some cut =>
    if ratio ≤ Scalar.epsilon then flat cut 2
    else (c.filter fun p => p.t < ratio).map (fun p => ⟨p.t / ratio, p.value⟩) ++ [⟨1, cut⟩]

end Curve

end MovingLight
