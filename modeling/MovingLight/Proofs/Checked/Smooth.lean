import MovingLight.Proofs.Checked.Channel
import MovingLight.Proofs.Curve.Smooth
import MovingLight.Timeline.Blend

/-!
# Smooth curves, checked

A machine keeps the times, the values and the slopes of a smooth curve in three lists of
one length and reaches for them by their places. Slopes are written into a list of zeros:
the inner ones one after another, each from the two spans on either side of its point, and
then the two at the ends, each from the two spans next to it. A curve of one point has no
span and a curve of two has one, so both are set apart before any of this.

At a time between the first point and the last the curve is read from the last point that
is not after it, or from the last but one where that is the last.
-/

namespace MovingLight

variable {α : Type} [Scalar α]

namespace Interpolant

/-! ## Spans -/

/-- The widths of the spans between neighbouring times. -/
def widthsChecked (ts : List α) : Checked (List α) :=
  (neighbours ts).mapM fun stretch => do
    return (← Checked.item stretch 1) - (← Checked.item stretch 0)

/-- The secants of the first `count` spans, given their widths. -/
def secantsChecked (count : Nat) (values widths : List α) : Checked (List α) :=
  (List.range count).mapM fun i => do
    return ((← Checked.item values (i + 1)) - (← Checked.item values i)) /
      (← Checked.item widths i)

/-- The span at a place. -/
def spanChecked (widths secants : List α) (i : Nat) : Checked (Span α) := do
  return ⟨← Checked.item widths i, ← Checked.item secants i⟩

theorem getElem?_spans {points : List (CurvePoint α)} {i : Nat} {s : Span α}
    (h : (spans points)[i]? = some s) :
    ∃ p q, points[i]? = some p ∧ points[i + 1]? = some q ∧
      s = ⟨q.t - p.t, (q.value - p.value) / (q.t - p.t)⟩ := by
  induction points using spans.induct generalizing i with
  | case1 p q rest ih =>
    rw [spans] at h
    cases i with
    | zero => exact ⟨p, q, rfl, rfl, (Option.some.inj h).symm⟩
    | succ i => exact ih h
  | case2 points short =>
    rw [spans] at h
    · cases h
    · exact short

theorem widthsChecked_ok : ∀ points : List (CurvePoint α),
    widthsChecked (points.map (·.t)) = .ok ((spans points).map (·.width))
  | [] => rfl
  | [_] => rfl
  | p :: q :: rest => by
    have later := widthsChecked_ok (q :: rest)
    rw [widthsChecked, List.map_cons] at later
    simp only [widthsChecked, List.map_cons, neighbours, spans, List.mapM_cons, later]
    rfl

theorem secantsChecked_ok (points : List (CurvePoint α)) :
    secantsChecked (spans points).length (points.map (·.value)) ((spans points).map (·.width)) =
      .ok ((spans points).map (·.secant)) := by
  rw [secantsChecked, List.range_eq_range', ← List.length_map (·.secant)]
  refine Checked.mapM_range'_eq_ok 0 fun i secant h => ?_
  rw [List.getElem?_map, Option.map_eq_some_iff] at h
  obtain ⟨s, hs, rfl⟩ := h
  obtain ⟨p, q, hp, hq, rfl⟩ := getElem?_spans hs
  rw [Nat.zero_add, Checked.item_map hp, Checked.item_map hq, Checked.item_map hs]
  rfl

omit [Scalar α] in
theorem spanChecked_ok {spans : List (Span α)} {i : Nat} {s : Span α} (h : spans[i]? = some s) :
    spanChecked (spans.map (·.width)) (spans.map (·.secant)) i = .ok s := by
  rw [spanChecked, Checked.item_map h, Checked.item_map h]
  rfl

/-! ## Slopes -/

/-- The slope at an inner point, from the spans on either side. -/
def innerSlopeChecked (widths secants : List α) (i : Nat) : Checked α := do
  return innerSlope (← spanChecked widths secants (← Checked.back i 1))
    (← spanChecked widths secants i)

/-- A zero for each of `n` points, those at the inner ones replaced by the slope there. -/
def innerSlopesChecked (n : Nat) (widths secants : List α) : Checked (List α) :=
  (List.range' 1 (n - 2)).foldlM
    (fun slopes i => do Checked.replace slopes i (← innerSlopeChecked widths secants i))
    (List.replicate n 0)

/-- The slopes at `n` points, three or more. -/
def writtenSlopesChecked (n : Nat) (widths secants : List α) : Checked (List α) := do
  let spanAt := spanChecked widths secants
  let slopes ← innerSlopesChecked n widths secants
  let slopes ← Checked.replace slopes 0 (endSlope (← spanAt 0) (← spanAt 1))
  Checked.replace slopes (← Checked.back n 1)
    (endSlope (← spanAt (← Checked.back n 2)) (← spanAt (← Checked.back n 3)))

/-- The slope at each of some points, given by their times and values. -/
def slopesChecked (ts values : List α) : Checked (List α) :=
  let n := ts.length
  if n < 2 then .ok (List.replicate n 0)
  else do
    let widths ← widthsChecked ts
    let secants ← secantsChecked (n - 1) values widths
    if n = 2 then return [← Checked.item secants 0, ← Checked.item secants 0]
    else writtenSlopesChecked n widths secants

theorem innerSlopeChecked_ok {spans : List (Span α)} {i : Nat} {slope : α}
    (h : (spans.zipWith innerSlope spans.tail)[i]? = some slope) :
    innerSlopeChecked (spans.map (·.width)) (spans.map (·.secant)) (1 + i) = .ok slope := by
  obtain ⟨a, b, ha, hb, rfl⟩ := List.getElem?_zipWith_eq_some.mp h
  rw [List.getElem?_tail] at hb
  rw [innerSlopeChecked, Checked.back_ok (Nat.add_comm 1 i), Checked.ok_bind, spanChecked_ok ha,
    Nat.add_comm 1 i, spanChecked_ok hb]
  rfl

/-- The inner slopes stand between two zeros. -/
theorem innerSlopesChecked_ok {spans : List (Span α)} {n : Nat} (count : spans.length = n + 1) :
    innerSlopesChecked (n + 2) (spans.map (·.width)) (spans.map (·.secant)) =
      .ok (0 :: (spans.zipWith innerSlope spans.tail ++ [0])) := by
  have inner : (spans.zipWith innerSlope spans.tail).length = n := by
    rw [List.length_zipWith, List.length_tail, count]
    omega
  have zeros : List.replicate (n + 2) (0 : α) = [0] ++ (List.replicate n 0 ++ [0]) := by
    rw [← List.replicate_succ', List.replicate_succ]
    rfl
  have same : (List.replicate n (0 : α)).length = (spans.zipWith innerSlope spans.tail).length :=
    List.length_replicate.trans inner.symm
  have written := Checked.foldlM_replace_ok [0] [0] same fun _ _ => innerSlopeChecked_ok
  rw [inner] at written
  rw [innerSlopesChecked, zeros]
  exact written

/-- The slopes after the first point: one for each two neighbouring spans, and one at the
end. -/
theorem exists_slopesAfter_eq (a b : Span α) (rest : List (Span α)) :
    ∃ before y z, a :: b :: rest = before ++ [y, z] ∧
      slopesAfter a (b :: rest) =
        (a :: b :: rest).zipWith innerSlope (b :: rest) ++ [endSlope z y] := by
  induction rest generalizing a b with
  | nil => exact ⟨[], a, b, rfl, rfl⟩
  | cons c rest ih =>
    obtain ⟨before, y, z, split, after⟩ := ih b c
    refine ⟨a :: before, y, z, by rw [split, List.cons_append], ?_⟩
    rw [slopesAfter, after]
    · rfl
    · exact List.cons_ne_nil _ _

theorem writtenSlopesChecked_ok (a b : Span α) (rest : List (Span α)) :
    writtenSlopesChecked ((a :: b :: rest).length + 1) ((a :: b :: rest).map (·.width))
      ((a :: b :: rest).map (·.secant)) = .ok (slopes (a :: b :: rest)) := by
  obtain ⟨before, y, z, split, after⟩ := exists_slopesAfter_eq a b rest
  have first : (a :: b :: rest)[0]? = some a := rfl
  have second : (a :: b :: rest)[1]? = some b := rfl
  have last : (a :: b :: rest)[before.length + 1]? = some z := by rw [split]; simp
  have previous : (a :: b :: rest)[before.length]? = some y := by rw [split]; simp
  have count : (a :: b :: rest).length = before.length + 2 := by rw [split]; simp
  have filled : (endSlope a b :: (a :: b :: rest).zipWith innerSlope (b :: rest)).length =
      before.length + 2 := by
    rw [List.length_cons, List.length_zipWith, ← count]
    simp
  have ended := Checked.replace_last
    (endSlope a b :: (a :: b :: rest).zipWith innerSlope (b :: rest)) 0 (endSlope z y)
  rw [filled] at ended
  rw [writtenSlopesChecked, count, innerSlopesChecked_ok count, slopes, after]
  simp only [Checked.ok_bind, spanChecked_ok first, spanChecked_ok second,
    Checked.replace_cons_zero, List.tail_cons,
    Checked.back_ok (show before.length + 2 + 1 = before.length + 1 + 2 from rfl),
    Checked.back_ok (show before.length + 2 + 1 = before.length + 3 from rfl),
    Checked.back_ok (rfl : before.length + 2 + 1 = _), spanChecked_ok last,
    spanChecked_ok previous]
  exact ended

theorem slopesChecked_ok (p : CurvePoint α) (rest : List (CurvePoint α)) :
    slopesChecked ((p :: rest).map (·.t)) ((p :: rest).map (·.value)) =
      .ok (slopes (spans (p :: rest))) := by
  have count : ((p :: rest).map (·.t)).length = (spans (p :: rest)).length + 1 := by
    rw [List.length_map, length_spans, List.length_cons]
  have widths := widthsChecked_ok (p :: rest)
  have secants := secantsChecked_ok (p :: rest)
  generalize (p :: rest).map (·.t) = ts at count widths ⊢
  generalize (p :: rest).map (·.value) = values at secants ⊢
  cases between : spans (p :: rest) with
  | nil =>
    rw [between] at count
    simp [slopesChecked, count, slopes]
  | cons a later =>
    rw [between] at count widths secants
    have two : ¬(a :: later).length + 1 < 2 := by simp
    simp only [slopesChecked, count, if_neg two, Nat.add_sub_cancel, widths, secants,
      Checked.ok_bind]
    cases later with
    | nil => rfl
    | cons b later =>
      rw [if_neg (by simp)]
      exact writtenSlopesChecked_ok a b later

/-! ## Values -/

/-- The knot at a place. -/
def knotChecked (ts values slopes : List α) (i : Nat) : Checked (Knot α) := do
  return ⟨← Checked.item ts i, ← Checked.item values i, ← Checked.item slopes i⟩

/-- The value at a time; level before the first knot and after the last. -/
def valueAtChecked (ts values slopes : List α) (x : α) : Checked α :=
  let n := ts.length
  if n = 1 then Checked.item values 0
  else do
    let first ← Checked.item ts 0
    if x ≤ first then Checked.item values 0
    else
      let last ← Checked.back n 1
      if (← Checked.item ts last) ≤ x then Checked.item values last
      else
        let reached := (ts.takeWhile fun t => t ≤ x).length
        let i := min (reached - 1) (← Checked.back n 2)
        return cubic (← knotChecked ts values slopes i) (← knotChecked ts values slopes (i + 1)) x

omit [Scalar α] in
theorem knotChecked_ok {knots : List (Knot α)} {i : Nat} {k : Knot α} (h : knots[i]? = some k) :
    knotChecked (knots.map (·.t)) (knots.map (·.value)) (knots.map (·.slope)) i = .ok k := by
  rw [knotChecked, Checked.item_map h, Checked.item_map h, Checked.item_map h]
  rfl

omit [Scalar α] in
/-- The last of some knots is the one at the last place. -/
theorem getElem?_last (a : Knot α) (rest : List (Knot α)) :
    (a :: rest)[rest.length]? = some (last ⟨a, rest⟩) := by
  rw [last, List.getLastD_eq_getLast?, ← List.getLast?_cons, List.getLast?_eq_getElem?]
  rfl

/-- How many knots come before the first that is after a time. -/
def reached (x : α) (knots : List (Knot α)) : Nat := (knots.takeWhile fun k => k.t ≤ x).length

theorem reached_cons_of_le {x : α} {k : Knot α} (h : k.t ≤ x) (rest : List (Knot α)) :
    reached x (k :: rest) = reached x rest + 1 := by
  simp [reached, h]

theorem reached_cons_of_not_le {x : α} {k : Knot α} (h : ¬k.t ≤ x) (rest : List (Knot α)) :
    reached x (k :: rest) = 0 := by
  simp [reached, h]

/-- The stretch a time lies on starts at the last knot that is not after it, and at the last
but one where that is the last. -/
theorem exists_valueFrom_eq (x : α) (a b : Knot α) (rest : List (Knot α)) :
    ∃ p q, (a :: b :: rest)[min (reached x (b :: rest)) rest.length]? = some p ∧
      (a :: b :: rest)[min (reached x (b :: rest)) rest.length + 1]? = some q ∧
      valueFrom x a (b :: rest) = cubic p q x := by
  induction rest generalizing a b with
  | nil => exact ⟨a, b, by simp, by simp, rfl⟩
  | cons c rest ih =>
    rw [valueFrom]
    · by_cases h : b.t ≤ x
      · rw [reached_cons_of_le h, List.length_cons, Nat.add_min_add_right, if_pos h]
        exact ih b c
      · rw [reached_cons_of_not_le h, if_neg h]
        exact ⟨a, b, by simp, by simp, rfl⟩
    · exact List.cons_ne_nil _ _

/-- At a time after the first knot it is among those reached. An indefinite time is neither
before nor after any, and reaches none. -/
theorem reached_sub_one [Scalar.OrderLaws α] {a : Knot α} (definite : a.t ≤ a.t) (b : Knot α)
    (rest : List (Knot α)) {x : α} (after : ¬x ≤ a.t) :
    reached x (a :: b :: rest) - 1 = reached x (b :: rest) := by
  by_cases h : a.t ≤ x
  · rw [reached_cons_of_le h, Nat.add_sub_cancel]
  · have later : ¬b.t ≤ x := fun before =>
      h (Scalar.OrderLaws.le_of_not_le x a.t (Scalar.OrderLaws.le_self_of_le b.t x before).2
        definite after)
    rw [reached_cons_of_not_le h, reached_cons_of_not_le later]

theorem valueAtChecked_ok [Scalar.OrderLaws α] {a : Knot α} (definite : a.t ≤ a.t)
    (rest : List (Knot α)) (x : α) :
    valueAtChecked ((a :: rest).map (·.t)) ((a :: rest).map (·.value)) ((a :: rest).map (·.slope))
      x = .ok (valueAt ⟨a, rest⟩ x) := by
  cases rest with
  | nil => rfl
  | cons b rest =>
    have first : (a :: b :: rest)[0]? = some a := rfl
    have last : (a :: b :: rest)[rest.length + 1]? = some (last ⟨a, b :: rest⟩) :=
      getElem?_last a (b :: rest)
    have count : ((a :: b :: rest).map (·.t)).length = rest.length + 2 := by simp
    have before : (((a :: b :: rest).map (·.t)).takeWhile fun t => t ≤ x).length =
        reached x (a :: b :: rest) := by
      rw [List.takeWhile_map, List.length_map]
      rfl
    have lastPlace : Checked.back (rest.length + 2) 1 = .ok (rest.length + 1) := Checked.back_ok rfl
    have lastStretch : Checked.back (rest.length + 2) 2 = .ok rest.length := Checked.back_ok rfl
    obtain ⟨p, q, hp, hq, value⟩ := exists_valueFrom_eq x a b rest
    have many : ¬rest.length + 2 = 1 := by omega
    rw [valueAtChecked, valueAt]
    simp only [count, if_neg many, Checked.item_map first, Checked.ok_bind, lastPlace,
      Checked.item_map last, lastStretch, before, List.isEmpty_cons, Bool.false_eq_true, false_or]
    split
    case isTrue => rfl
    case isFalse after =>
      split
      case isTrue => rfl
      case isFalse =>
        rw [reached_sub_one definite b rest after, knotChecked_ok hp, knotChecked_ok hq, value]
        rfl

/-! ## Drawing -/

/-- The first point a curve is drawn through is at a definite time. -/
theorem support_definite [Scalar.OrderLaws α] {c : Curve α} {p : CurvePoint α}
    {rest : List (CurvePoint α)} (h : support c = p :: rest) : p.t ≤ p.t := by
  rw [support] at h
  cases listed : usable c with
  | nil =>
    rw [listed] at h
    cases h
  | cons q later =>
    rw [listed] at h
    obtain ⟨value, tail, joined⟩ := exists_joined q later
    cases joined.symm.trans h
    have counts : q ∈ usable c := listed ▸ List.mem_cons_self
    rw [usable, (List.mergeSort_perm _ _).mem_iff, List.mem_filter, Bool.and_eq_true] at counts
    exact Scalar.OrderLaws.le_self_of_isFinite q.t counts.2.1

omit [Scalar α] in
/-- The knots at some points, of as many slopes. -/
theorem map_zipWith_knot {points : List (CurvePoint α)} {slopes : List α}
    (same : points.length = slopes.length) :
    (points.zipWith (fun p s => (⟨p.t, p.value, s⟩ : Knot α)) slopes).map (·.t) =
        points.map (·.t) ∧
      (points.zipWith (fun p s => (⟨p.t, p.value, s⟩ : Knot α)) slopes).map (·.value) =
        points.map (·.value) ∧
      (points.zipWith (fun p s => (⟨p.t, p.value, s⟩ : Knot α)) slopes).map (·.slope) =
        slopes := by
  induction points generalizing slopes with
  | nil =>
    rw [List.length_eq_zero_iff.mp same.symm]
    exact ⟨rfl, rfl, rfl⟩
  | cons p points ih =>
    obtain ⟨s, slopes, rfl⟩ := List.exists_of_length_succ slopes same.symm
    obtain ⟨ts, values, kept⟩ := ih (Nat.succ.inj same)
    simp only [List.zipWith_cons_cons, List.map_cons, ts, values, kept, and_self]

/-- A curve with points to be drawn through has a knot at each of them. -/
theorem exists_knots {c : Curve α} {p : CurvePoint α} {rest : List (CurvePoint α)}
    (h : support c = p :: rest) :
    ∃ a later, ofCurve? c = some ⟨a, later⟩ ∧ (a :: later).map (·.t) = (p :: rest).map (·.t) ∧
      (a :: later).map (·.value) = (p :: rest).map (·.value) ∧
      (a :: later).map (·.slope) = slopes (spans (p :: rest)) := by
  have same : (p :: rest).length = (slopes (spans (p :: rest))).length := by
    rw [length_slopes, length_spans, List.length_cons]
  obtain ⟨s, others, listed⟩ := List.exists_of_length_succ _ same.symm
  rw [listed] at same
  refine ⟨⟨p.t, p.value, s⟩, rest.zipWith (fun p s => ⟨p.t, p.value, s⟩) others, ?_, ?_⟩
  · simp only [ofCurve?, h, listed, List.zipWith_cons_cons]
  · rw [listed]
    exact map_zipWith_knot same

end Interpolant

/-- A curve drawn smoothly through `count` evenly spaced times, at least two; none where no
point counts. -/
def Curve.smoothChecked? (c : Curve α) (count : Nat) : Checked (Option (Curve α)) :=
  let points := Interpolant.support c
  if points.isEmpty then .ok none
  else do
    let ts := points.map (·.t)
    let values := points.map (·.value)
    let slopes ← Interpolant.slopesChecked ts values
    let first ← Checked.item values 0
    let last ← Checked.item values (← Checked.back values.length 1)
    let count := max count 2
    return some (← (List.range count).mapM fun i => do
      let t := Scalar.evenTime i count
      let value : Checked α :=
        if i = 0 then .ok first
        else if i = count - 1 then .ok last
        else Interpolant.valueAtChecked ts values slopes t
      return ⟨t, ← value⟩)

/-- The channel with its curve drawn through `count` points, dark where no point counts. -/
def ChannelValue.drawnChecked (count : Nat) : ChannelValue α → Checked (ChannelValue α)
  | .curve c => do return .curve ((← c.smoothChecked? count).getD (Curve.flat 0 count))
  | v => .ok v

/-- The effect with all its curves drawn. -/
def Effect.drawnChecked (count : Nat) (e : Effect α) : Checked (Effect α) := do
  return { e with channels := ← e.channels.mapChecked (ChannelValue.drawnChecked count) }

variable [Scalar.OrderLaws α]

@[simp]
theorem Curve.smoothChecked?_ok (c : Curve α) (count : Nat) :
    c.smoothChecked? count = .ok (c.smooth? count) := by
  cases points : Interpolant.support c with
  | nil =>
    have none : Interpolant.ofCurve? c = none := by simp [Interpolant.ofCurve?, points]
    simp [Curve.smoothChecked?, Curve.smooth?, points, none]
  | cons p rest =>
    obtain ⟨a, later, drawn, ts, values, slopes⟩ := Interpolant.exists_knots points
    have definite : a.t ≤ a.t := by
      have same : a.t = p.t := (List.cons.inj ts).1
      rw [same]
      exact Interpolant.support_definite points
    have written := Interpolant.slopesChecked_ok p rest
    rw [← ts, ← values, ← slopes] at written
    have valueAt := Interpolant.valueAtChecked_ok definite later
    have first : (a :: later)[0]? = some a := rfl
    have last := Interpolant.getElem?_last a later
    have lastPlace : Checked.back ((a :: later).map (·.value)).length 1 = .ok later.length :=
      Checked.back_ok (by simp)
    rw [Curve.smoothChecked?, Curve.smooth?, drawn, points]
    simp only [← ts, ← values, List.isEmpty_cons, Bool.false_eq_true, if_false, written,
      Checked.item_map first, lastPlace, Checked.item_map last, valueAt, Checked.ok_bind,
      Checked.pure_eq_ok, Checked.ite_ok, Checked.mapM_ok, Option.map_some]

@[simp]
theorem ChannelValue.drawnChecked_ok (count : Nat) :
    ChannelValue.drawnChecked count = fun v : ChannelValue α => .ok (v.drawn count) := by
  funext v
  cases v with
  | curve c => simp [ChannelValue.drawnChecked, ChannelValue.drawn]
  | hold level => rfl
  | wave w => rfl

@[simp]
theorem Effect.drawnChecked_ok (count : Nat) :
    Effect.drawnChecked count = fun e : Effect α => .ok (e.drawn count) := by
  funext e
  simp [Effect.drawnChecked, Effect.drawn]

end MovingLight
