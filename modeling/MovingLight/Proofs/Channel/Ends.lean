import MovingLight.Proofs.Curve.Smooth
import MovingLight.Timeline.Blend
import MovingLight.Transition

/-!
# The ends of a channel — before and after drawing

A gap is filled between what its neighbours show at its edges, and these values are
read before any curve is drawn. They are what the neighbours show in the end if
drawing leaves both ends of a channel alone. It does so for levels and waves, which
are not drawn at all, and for curves whose ends are plain (`Curve.PlainEnds`,
`ChannelValue.drawn_ends`). The straight lines and the sampled curves that the program
makes itself have plain ends (`Curve.plainEnds_linear`, `Curve.plainEnds_sampled`).

For other curves the two readings part. A curve is read from its points as they are
listed, and drawn through its points in order of time, of which those of one time
are joined and the last counts. Where the first time is given twice, reading starts
from the first of the two and drawing from the second (`not_drawn_ends`); where the
points are not listed in order of time, reading starts from the point listed first
and drawing from the earliest.
-/

namespace MovingLight

/-- **The ends of a curve are plain**: its points are listed in order of time and lie in the effect,
the second lies clear of the first, and none but the last lies at the very end. -/
structure Curve.PlainEnds (c : Curve ℚ) : Prop where
  ordered : c.Pairwise fun p q => p.t ≤ q.t
  inside : ∀ p ∈ c, p.t ∈ Set.Icc (0 : ℚ) 1
  start : ∀ p ∈ c.head?, ∀ q ∈ c.tail.head?, Interpolant.Clear p q
  finish : ∀ p ∈ c.dropLast, p.t < 1

/-- The ends of a channel are plain: it runs along no curve whose ends are not. -/
def ChannelValue.PlainEnds : ChannelValue ℚ → Prop
  | curve c => c.PlainEnds
  | _ => True

theorem ChannelSet.mem_values {α : Type} {c : ChannelSet α} {v : ChannelValue α} :
    v ∈ c.values ↔ v = c.pan ∨ v = c.tilt ∨ v = c.dimmer ∨ c.shutter = some v ∨ c.gobo = some v ∨
      c.color = some (.wheel v) := by
  obtain ⟨pan, tilt, dimmer, shutter, color, gobo⟩ := c
  cases color with
  | none => simp [values]
  | some color => cases color <;> simp [values, eq_comm]

section Exact

variable [ExactReading]

/-! ## Reading the ends of a curve -/

namespace Curve

/-- Where no point lies before the effect, a curve starts with its first value. -/
theorem valueAt_zero {c : Curve ℚ} (inside : ∀ p ∈ c.head?, 0 ≤ p.t) :
    c.valueAt 0 = c.firstValue?.getD 0 := by
  cases c with
  | nil => rfl
  | cons first rest =>
    show (if 0 ≤ first.t then first.value else valueAfter 0 first rest) = first.value
    exact if_pos (inside first rfl)

/-- Past a point before the very end, the first point that reaches the end gives the value. -/
theorem valueAfter_one {p : CurvePoint ℚ} {rest : List (CurvePoint ℚ)}
    (inside : ∀ q ∈ rest, q.t ≤ 1) (finish : ∀ q ∈ (p :: rest).dropLast, q.t < 1) :
    valueAfter 1 p rest = (rest.getLastD p).value := by
  induction rest generalizing p with
  | nil => rfl
  | cons n rest ih =>
    obtain ⟨hn, later⟩ := List.forall_mem_cons.mp inside
    rw [List.dropLast_cons_cons] at finish
    obtain ⟨hp, hrest⟩ := List.forall_mem_cons.mp finish
    rw [valueAfter, List.getLastD_cons]
    split
    · rename_i reached
      -- only the last point may lie at the end, so nothing follows `n`
      have at_end : n.t = 1 := le_antisymm hn reached
      have whole : Scalar.between p.value n.value 1 = n.value := by
        unfold Scalar.between
        ring
      cases rest with
      | cons m rest => exact absurd at_end (ne_of_lt (hrest n List.mem_cons_self))
      | nil =>
        split
        · rfl
        · rw [at_end, div_self (sub_ne_zero.mpr (ne_of_gt hp))]
          rw [Scalar.clampUnit, Scalar.clamp_of_mem ⟨zero_le_one, le_refl 1⟩]
          exact whole
    · exact ih later hrest

/-- Where no point but the last lies at the very end, a curve ends with its last value. -/
theorem valueAt_one {c : Curve ℚ} (inside : ∀ p ∈ c, p.t ≤ 1)
    (finish : ∀ p ∈ c.dropLast, p.t < 1) : c.valueAt 1 = c.lastValue?.getD 0 := by
  cases c with
  | nil => rfl
  | cons first rest =>
    rw [lastValue?, List.getLast?_cons, ← List.getLastD_eq_getLast?]
    show (if 1 ≤ first.t then first.value else valueAfter 1 first rest) =
      (rest.getLastD first).value
    split
    · rename_i reached
      cases rest with
      | nil => rfl
      | cons n rest =>
        have before : first.t < 1 := finish first List.mem_cons_self
        exact absurd reached (not_le.mpr before)
    · exact valueAfter_one (List.forall_mem_cons.mp inside).2 finish

end Curve

/-! ## The points a curve is drawn through -/

namespace Interpolant

/-- Points in order of time stay as they are listed. -/
theorem usable_eq_self {c : Curve ℚ} (ordered : c.Pairwise fun p q => p.t ≤ q.t) :
    usable c = c := by
  have all : (c.filter fun p => Scalar.isFinite p.t && Scalar.isFinite p.value) = c :=
    List.filter_eq_self.mpr fun p _ => rfl
  unfold usable
  rw [all]
  exact List.mergeSort_of_pairwise (ordered.imp decide_eq_true)

/-- The last value is never lost by joining: it is kept, or takes the place of others. -/
theorem joined_lastValue? (p : CurvePoint ℚ) (rest : List (CurvePoint ℚ)) :
    Curve.lastValue? (joined p rest) = Curve.lastValue? (p :: rest) := by
  unfold Curve.lastValue?
  induction rest generalizing p with
  | nil => rfl
  | cons q rest ih =>
    rw [joined, List.getLast?_cons_cons]
    split
    · -- the joined point has the value of the later of the two
      rw [ih, List.getLast?_cons, List.getLast?_cons]
      cases rest.getLast? <;> rfl
    · rw [← ih]
      obtain ⟨value, later, starts⟩ := exists_joined q rest
      rw [starts, List.getLast?_cons_cons]

theorem support_firstValue? {c : Curve ℚ} (h : c.PlainEnds) :
    Curve.firstValue? (support c) = c.firstValue? := by
  unfold support Curve.firstValue?
  rw [usable_eq_self h.ordered]
  match c, h with
  | [], _ => rfl
  | [p], _ => rfl
  | p :: q :: rest, h =>
    have clear : Clear p q := h.start p rfl q rfl
    have forward : 0 ≤ q.t - p.t := le_trans (by norm_num) clear
    have apart : ¬Scalar.abs (q.t - p.t) < 0.000001 := by
      rw [show Scalar.abs (q.t - p.t) = q.t - p.t from abs_of_nonneg forward]
      exact not_lt.mpr clear
    simp only [joined, if_neg apart, List.head?_cons]

theorem support_lastValue? {c : Curve ℚ} (ordered : c.Pairwise fun p q => p.t ≤ q.t) :
    Curve.lastValue? (support c) = c.lastValue? := by
  unfold support
  rw [usable_eq_self ordered]
  cases c with
  | nil => rfl
  | cons p rest => exact joined_lastValue? p rest

/-- The first and the last knot of a smooth curve have the values of the first and the last point it
is drawn through. -/
theorem ends_of_ofCurve? {c : Curve ℚ} {f : Interpolant ℚ} (h : ofCurve? c = some f) :
    Curve.firstValue? (support c) = some f.first.value ∧
      Curve.lastValue? (support c) = some f.last.value := by
  have points : support c = (f.first :: f.rest).map Knot.point := by
    rw [eq_knots_of_ofCurve? h, map_point_knots]
  rw [points]
  constructor
  · rfl
  · rw [Curve.lastValue?, List.getLast?_map, List.getLast?_cons, ← List.getLastD_eq_getLast?]
    rfl

end Interpolant

/-! ## Evenly spaced points -/

namespace Curve

/-- The points of `n + 1` even steps from the start of the effect to its end. -/
def evenly (value : Nat → ℚ) (n : Nat) : Curve ℚ :=
  (List.range (n + 2)).map fun i => ⟨Scalar.evenTime i (n + 2), value i⟩

variable (value : Nat → ℚ) (n : Nat)

/-- What is sampled is evenly spaced, in one step or more. -/
theorem exists_sampled_eq_evenly (f : ℚ → ℚ) (count : Nat) :
    ∃ n, n + 2 = max count 2 ∧
      sampled count f = evenly (fun i => f (Scalar.evenTime i (n + 2))) n := by
  obtain ⟨n, hn⟩ : ∃ n, n + 2 = max count 2 := ⟨max count 2 - 2, by omega⟩
  refine ⟨n, hn, ?_⟩
  unfold sampled evenly
  dsimp only
  rw [hn]

theorem evenly_dropLast : ∀ p ∈ (evenly value n).dropLast, p.t < 1 := by
  unfold evenly
  rw [List.range_succ, List.map_append, List.map_singleton, List.dropLast_concat]
  intro p hp
  obtain ⟨i, hi, rfl⟩ := List.mem_map.mp hp
  exact Scalar.evenTime_lt_one (Nat.add_lt_add_right (List.mem_range.mp hi) 1)

theorem evenly_inside : ∀ p ∈ evenly value n, p.t ∈ Set.Icc (0 : ℚ) 1 := by
  intro p hp
  obtain ⟨i, hi, rfl⟩ := List.mem_map.mp hp
  exact Scalar.evenTime_mem (List.mem_range.mp hi)

theorem evenly_ordered : (evenly value n).Pairwise fun p q => p.t ≤ q.t :=
  List.pairwise_map.mpr (List.pairwise_lt_range.imp fun hij => Scalar.evenTime_le hij.le _)

/-- A curve of evenly spaced points starts with the first of their values and ends with the last. -/
theorem valueAt_evenly :
    (evenly value n).valueAt 0 = value 0 ∧ (evenly value n).valueAt 1 = value (n + 1) := by
  have inside := evenly_inside value n
  rw [valueAt_zero fun p hp => (inside p (List.mem_of_mem_head? hp)).1,
    valueAt_one (fun p hp => (inside p hp).2) (evenly_dropLast value n)]
  constructor
  · rw [evenly, List.range_succ_eq_map]
    rfl
  · rw [evenly, lastValue?, List.range_succ, List.map_append, List.map_singleton,
      List.getLast?_concat]
    rfl

/-- Even steps that are not too short leave the points clear of each other. -/
theorem isChain_evenly (few : n + 2 ≤ 1000001) : (evenly value n).IsChain Interpolant.Clear := by
  refine (List.pairwise_map.mpr (List.pairwise_lt_range.imp fun {i j} before => ?_)).isChain
  have pos : (0 : ℚ) < ((n + 1 : Nat) : ℚ) := Nat.cast_pos.mpr n.succ_pos
  have steps : ((n + 1 : Nat) : ℚ) ≤ 1000000 := by exact_mod_cast (by omega : n + 1 ≤ 1000000)
  have step : (i : ℚ) + 1 ≤ j := by exact_mod_cast before
  show (0.000001 : ℚ) ≤ (j : ℚ) / ((n + 1 : Nat) : ℚ) - (i : ℚ) / ((n + 1 : Nat) : ℚ)
  rw [← sub_div, le_div_iff₀ pos]
  linarith

/-- **The program's own curves have plain ends**, as long as their steps are no shorter than what
lies clear. -/
theorem plainEnds_sampled {count : Nat} (h : count ≤ 1000001) (f : ℚ → ℚ) :
    (sampled count f).PlainEnds := by
  obtain ⟨n, hn, sampled_eq⟩ := exists_sampled_eq_evenly f count
  rw [sampled_eq]
  refine ⟨evenly_ordered _ n, evenly_inside _ n, fun p hp q hq => ?_, evenly_dropLast _ n⟩
  have clear := isChain_evenly (fun i => f (Scalar.evenTime i (n + 2))) n (by omega)
  simp only [evenly, List.range_succ_eq_map, List.map_cons] at clear hp hq
  cases hp
  cases hq
  exact (List.isChain_cons_cons.mp clear).1

end Curve

/-! ## The ends of a drawn curve -/

/-- **A drawn curve starts and ends with the first and the last point it is drawn through.** -/
theorem Curve.smooth?_ends {c d : Curve ℚ} {count : Nat} (h : c.smooth? count = some d) :
    d.valueAt 0 = (Curve.firstValue? (Interpolant.support c)).getD 0 ∧
      d.valueAt 1 = (Curve.lastValue? (Interpolant.support c)).getD 0 := by
  unfold Curve.smooth? at h
  obtain ⟨f, hf, rfl⟩ := Option.map_eq_some_iff.mp h
  obtain ⟨first, last⟩ := Interpolant.ends_of_ofCurve? hf
  obtain ⟨n, hn⟩ : ∃ n, max count 2 = n + 2 := ⟨max count 2 - 2, by omega⟩
  rw [hn, first, last]
  have ends := valueAt_evenly (fun i => if i = 0 then f.first.value
    else if i = n + 2 - 1 then f.last.value else f.valueAt (Scalar.evenTime i (n + 2))) n
  refine ⟨ends.1.trans (if_pos rfl), ends.2.trans ?_⟩
  exact (if_neg (Nat.succ_ne_zero n)).trans (if_pos rfl)

theorem Curve.exists_smooth? {c : Curve ℚ} (h : c ≠ []) (count : Nat) :
    ∃ d, c.smooth? count = some d := by
  obtain ⟨f, hf⟩ := Interpolant.exists_ofCurve? h
  exact ⟨_, by rw [Curve.smooth?, hf]; rfl⟩

theorem Curve.flat_ends (x : ℚ) (count : Nat) :
    (flat x count).valueAt 0 = x ∧ (flat x count).valueAt 1 = x := by
  obtain ⟨n, -, flat_eq⟩ := exists_sampled_eq_evenly (fun _ => x) count
  rw [flat, flat_eq]
  exact valueAt_evenly _ n

/-! ## A channel before and after -/

theorem Curve.plainEnds_linear (x y : ℚ) : (linear x y).PlainEnds where
  ordered := by simp [linear]
  inside := by simp [linear]
  start := by
    intro p hp q hq
    simp only [linear, List.head?_cons, List.tail_cons, Option.mem_some_iff] at hp hq
    subst hp hq
    show (0.000001 : ℚ) ≤ 1 - 0
    norm_num
  finish := by simp [linear]

/-- **Drawing leaves plain ends alone.** -/
theorem ChannelValue.drawn_ends {v : ChannelValue ℚ} (h : v.PlainEnds) (count : Nat) :
    (v.drawn count).startValue = v.startValue ∧ (v.drawn count).endValue = v.endValue := by
  cases v with
  | hold level => exact ⟨rfl, rfl⟩
  | wave w => exact ⟨rfl, rfl⟩
  | curve c =>
    have before : c.valueAt 0 = c.firstValue?.getD 0 ∧ c.valueAt 1 = c.lastValue?.getD 0 := by
      refine ⟨Curve.valueAt_zero fun p hp => ?_, Curve.valueAt_one (fun p hp => ?_) h.finish⟩
      · exact (h.inside p (List.mem_of_mem_head? hp)).1
      · exact (h.inside p hp).2
    show Curve.valueAt ((c.smooth? count).getD _) 0 = c.valueAt 0 ∧
      Curve.valueAt ((c.smooth? count).getD _) 1 = c.valueAt 1
    cases drawn : c.smooth? count with
    | some d =>
      rw [before.1, before.2, ← Interpolant.support_firstValue? h,
        ← Interpolant.support_lastValue? h.ordered]
      exact Curve.smooth?_ends drawn
    | none =>
      have empty : c = [] := by
        by_contra nonempty
        obtain ⟨d, drawn'⟩ := Curve.exists_smooth? nonempty count
        rw [drawn] at drawn'
        cases drawn'
      subst empty
      exact Curve.flat_ends 0 count

/-- What a channel set shows at a time does not change where none of its channels does. -/
theorem Anchor.moment_map {t : ℚ} {c : ChannelSet ℚ} {change : ChannelValue ℚ → ChannelValue ℚ}
    (h : ∀ v ∈ c.values, (change v).valueAt t = v.valueAt t) :
    Anchor.moment t (c.map change) = Anchor.moment t c := by
  have same (v : ChannelValue ℚ) (hv : _) : (change v).valueAt t = v.valueAt t :=
    h v (ChannelSet.mem_values.mpr hv)
  unfold Anchor.moment ChannelSet.map
  rw [Anchor.mk.injEq]
  refine ⟨?_, ?_, ?_, ?_, ?_, ?_⟩
  · exact same c.pan (by simp)
  · exact same c.tilt (by simp)
  · exact same c.dimmer (by simp)
  · rw [Option.map_map]
    exact Option.map_congr fun v hv => same v (by simp [hv])
  · rw [Option.map_map]
    refine Option.map_congr fun color hcolor => ?_
    cases color with
    | rgb r g b => rfl
    | wheel v =>
      show Color.wheel (.hold (Dmx.level ((change v).valueAt t))) = _
      rw [same v (by simp [hcolor])]
      rfl
  · rw [Option.map_map]
    refine Option.map_congr fun v hv => ?_
    show Dmx.level ((change v).valueAt t) = _
    rw [same v (by simp [hv])]

/-- **A gap is filled from and to what its neighbours show in the end**, where the ends of all their
channels are plain. -/
theorem Effect.drawn_anchors {e : Effect ℚ} (h : ∀ v ∈ e.channels.values, v.PlainEnds)
    (count : Nat) :
    Anchor.startOf (e.drawn count).channels = Anchor.startOf e.channels ∧
      Anchor.endOf (e.drawn count).channels = Anchor.endOf e.channels :=
  ⟨Anchor.moment_map fun v hv => (ChannelValue.drawn_ends (h v hv) count).1,
    Anchor.moment_map fun v hv => (ChannelValue.drawn_ends (h v hv) count).2⟩

/-! ## Ends that are not plain -/

/-- A curve that gives its first time twice. -/
def Curve.doubled (x y : ℚ) : Curve ℚ := [⟨0, x⟩, ⟨0, y⟩, ⟨1, y⟩]

/-- Of two points at the very start the second is the one that counts. -/
theorem Interpolant.support_doubled (x y : ℚ) :
    support (Curve.doubled x y) = [⟨0, y⟩, ⟨1, y⟩] := by
  have listed : usable (Curve.doubled x y) = Curve.doubled x y :=
    usable_eq_self (by simp [Curve.doubled])
  unfold support
  rw [listed]
  simp only [Curve.doubled, joined, Scalar.abs]
  norm_num

/-- Where the first time is given twice, a channel starts with the first of the two values before it
is drawn and with the second afterwards. -/
theorem ChannelValue.drawn_start_doubled (x y : ℚ) (count : Nat) :
    (curve (.doubled x y)).startValue = x ∧
      ((curve (.doubled x y)).drawn count).startValue = y := by
  constructor
  · show Curve.valueAt (Curve.doubled x y) 0 = x
    rw [Curve.valueAt_zero]
    · rfl
    · simp [Curve.doubled]
  · have nonempty : Curve.doubled x y ≠ [] := List.cons_ne_nil _ _
    obtain ⟨d, drawn⟩ := Curve.exists_smooth? nonempty count
    have start := (Curve.smooth?_ends drawn).1
    rw [Interpolant.support_doubled] at start
    show Curve.valueAt ((Curve.smooth? _ count).getD _) 0 = y
    rw [drawn]
    exact start

end Exact

/-- A pan that goes straight from one level to another, and a tilt that holds. -/
theorem Effect.drawn_anchors_of_linear :
    letI := ExactReading.parabolic
    let e : Effect ℚ := {
      fixtureId := "MH1"
      startMs := 0
      endMs := 1000
      channels := {
        pan := .curve (Curve.linear 10 200)
        tilt := .hold 90
        dimmer := .hold 255 }
      boundary := {}
      label := ""
      metadata := [] }
    Anchor.startOf (e.drawn 25).channels = Anchor.startOf e.channels ∧
      Anchor.endOf (e.drawn 25).channels = Anchor.endOf e.channels := by
  intro e
  let reading := ExactReading.parabolic
  refine Effect.drawn_anchors (fun v hv => ?_) 25
  simp only [e, ChannelSet.mem_values, reduceCtorEq, or_false] at hv
  rcases hv with rfl | rfl | rfl
  · exact Curve.plainEnds_linear 10 200
  · trivial
  · trivial

/-- **Drawing does not leave every end alone.** -/
theorem ChannelValue.not_drawn_ends :
    ¬∀ (_ : ExactReading) (v : ChannelValue ℚ) (count : Nat), 2 ≤ count →
      (v.drawn count).startValue = v.startValue ∧ (v.drawn count).endValue = v.endValue := by
  intro every
  let reading := ExactReading.parabolic
  obtain ⟨before, after⟩ := ChannelValue.drawn_start_doubled 10 200 2
  have same := (every reading (curve (.doubled 10 200)) 2 (le_refl 2)).1
  rw [after, before] at same
  norm_num at same

end MovingLight
