import MovingLight.Proofs.Channel.Ends
import MovingLight.Proofs.Timeline.Finish

/-!
# Crossfades — each blend sees its neighbours as they were

Blending goes through the effects of a head from left to right and changes them as it goes,
so an effect between two crossfades is pulled twice, and what the second blend reads of it
the first has already changed. Nothing of that shows: a blend is never longer than either
effect, so the samples it pulls at one end do not reach the sample at the other end
(`ChannelValue.PulledTo.endValue_eq`). Every effect comes out as if both of its neighbours
had never been touched (`Timeline.blendFrom_pulledTo`).

`Effect.Crossfades` says where a blend takes place and how long it is, in terms of the two
effects alone. `Effect.BlendsTo` says what then becomes of an effect between two neighbours:
of its samples, the last of all and the first of all take over what the neighbour showed
there, those further away than the blend keep their values, and all else is as it was.
`Timeline.blend_crossfades` is the statement for all effects of a head.

All of this is about the exact reading. In single precision the sample at a boundary is hit
up to rounding.
-/

namespace MovingLight

/-! ## Where neighbours are blended -/

/-- The length that is asked for a transition: the usual one where none is given. -/
def Transition.requestedMs (t : Transition) (defaultMs : Nat) : Nat :=
  if 0 < t.durationMs then t.durationMs else defaultMs

/-- **Two neighbours are blended** over `lengthMs`: they meet in a crossfade, and the blend takes as
long as is asked for, but no more than the given share of either. -/
structure Effect.Crossfades (settings : Settings ℚ) (current next : Effect ℚ) (lengthMs : ℚ) :
    Prop where
  meet : next.startMs ≤ current.endMs
  mode : ∃ t, current.transitionTo next = some t ∧ t.mode = .crossfade ∧
    lengthMs = min (min (t.requestedMs settings.defaultBlendMs : ℚ)
      (settings.blendFraction * current.durationMs)) (settings.blendFraction * next.durationMs)
  pos : 0 < lengthMs

/-- What a channel is pulled towards at one end, and over which length. -/
structure Pull where
  lengthMs : ℚ
  anchor : ℚ

section Blends

variable [ExactReading]

/-- A channel as points: a level is written out, a wave has none. -/
def ChannelValue.samples (n : Nat) (v : ChannelValue ℚ) : Curve ℚ :=
  (v.points? n).getD []

/-- **What becomes of a channel** that is pulled at its start and at its end, or at one of them, or
not at all. There is at most one pull at either end. -/
structure ChannelValue.BlendsTo (n : Nat) (durationMs : ℚ) (atStart atEnd : Set Pull)
    (v w : ChannelValue ℚ) : Prop where
  alone : atStart = ∅ → atEnd = ∅ → w = v
  first : ∀ pull ∈ atStart, (w.samples n).firstValue? = some pull.anchor
  last : ∀ pull ∈ atEnd, (w.samples n).lastValue? = some pull.anchor
  /-- Samples keep their times, and the values of those away from each pull. -/
  away : List.Forall₂
    (fun p q => q.t = p.t ∧
      ((∀ pull ∈ atStart, pull.lengthMs ≤ p.t * durationMs) →
        (∀ pull ∈ atEnd, pull.lengthMs ≤ durationMs - p.t * durationMs) → q.value = p.value))
    (v.samples n) (w.samples n)

/-- The pull at the start of a part: towards what the effect before shows at its end. -/
def Effect.pullsAtStart (settings : Settings ℚ) (before : Option (Effect ℚ)) (e : Effect ℚ)
    (k : ChannelSet.Part) : Set Pull :=
  {pull | ∃ b ∈ before, b.Crossfades settings e pull.lengthMs ∧
    ∃ v ∈ b.channels.part? k, v.endValue = pull.anchor}

/-- The pull at the end of a part: towards what the effect after shows at its start. -/
def Effect.pullsAtEnd (settings : Settings ℚ) (e : Effect ℚ) (after : Option (Effect ℚ))
    (k : ChannelSet.Part) : Set Pull :=
  {pull | ∃ a ∈ after, e.Crossfades settings a pull.lengthMs ∧
    ∃ v ∈ a.channels.part? k, v.startValue = pull.anchor}

/-- **What becomes of an effect** between its neighbours as they were before any blend. -/
structure Effect.BlendsTo (settings : Settings ℚ) (before after : Option (Effect ℚ))
    (e d : Effect ℚ) : Prop where
  frame : d.frame = e.frame
  color : d.channels.color = e.channels.color
  gobo : d.channels.gobo = e.channels.gobo
  parts : ∀ k, Option.Rel
    (ChannelValue.BlendsTo (max settings.curvePoints 2) e.durationMs
      (e.pullsAtStart settings before k) (e.pullsAtEnd settings after k))
    (e.channels.part? k) (d.channels.part? k)

end Blends

/-- Effects one by one, each with its neighbours and what has become of it. -/
inductive Timeline.EachInContext {α : Type}
    (R : Option (Effect α) → Option (Effect α) → Effect α → Effect α → Prop) :
    Option (Effect α) → List (Effect α) → List (Effect α) → Prop where
  | nil (before : Option (Effect α)) : EachInContext R before [] []
  | cons {before : Option (Effect α)} {e d : Effect α} {rest others : List (Effect α)}
      (here : R before rest.head? e d) (later : EachInContext R (some e) rest others) :
      EachInContext R before (e :: rest) (d :: others)

theorem Timeline.EachInContext.imp {α : Type}
    {R S : Option (Effect α) → Option (Effect α) → Effect α → Effect α → Prop}
    (h : ∀ before after e d, R before after e d → S before after e d)
    {before : Option (Effect α)} {effects others : List (Effect α)}
    (each : EachInContext R before effects others) : EachInContext S before effects others := by
  induction each with
  | nil before => exact .nil before
  | cons here _ ih => exact .cons (h _ _ _ _ here) ih

/-- What holds of an effect next to any others, along with how it is related to its own. -/
theorem Timeline.EachInContext.and_of_forall {α : Type}
    {P : Option (Effect α) → Option (Effect α) → Effect α → Prop}
    {R : Option (Effect α) → Option (Effect α) → Effect α → Effect α → Prop}
    {before : Option (Effect α)} {effects others : List (Effect α)}
    (all : ∀ e ∈ effects, ∀ before after, P before after e)
    (each : EachInContext R before effects others) :
    EachInContext (fun before after e d => P before after e ∧ R before after e d) before effects
      others := by
  induction each with
  | nil before => exact .nil before
  | cons here _ ih =>
    obtain ⟨first, rest⟩ := List.forall_mem_cons.mp all
    exact .cons ⟨first _ _, here⟩ (ih rest)

theorem ChannelSet.mem_values_of_part? {α : Type} {s : ChannelSet α} {k : Part}
    {v : ChannelValue α} (h : s.part? k = some v) : v ∈ s.values := by
  rw [mem_values]
  cases k with
  | pan => exact Or.inl (Option.some.inj h).symm
  | tilt => exact Or.inr (Or.inl (Option.some.inj h).symm)
  | dimmer => exact Or.inr (Or.inr (Or.inl (Option.some.inj h).symm))
  | shutter => exact Or.inr (Or.inr (Or.inr (Or.inl h)))

section Exact

variable [ExactReading]

/-- Where a blend takes place and how long it is, as the program decides it. -/
theorem Effect.blendLength?_eq_some {settings : Settings ℚ} {current next : Effect ℚ}
    {lengthMs : ℚ} : current.blendLength? settings next = some lengthMs ↔
      current.Crossfades settings next lengthMs := by
  unfold Effect.blendLength? Effect.boundaryTransition
  cases governs : current.transitionTo next with
  | none =>
    constructor
    · intro h
      simp at h
    · rintro ⟨-, ⟨t, found, -⟩, -⟩
      rw [governs] at found
      cases found
  | some t =>
    simp only [Scalar.lesser_eq_min, Option.ite_none_left_eq_some, Option.some.injEq, not_lt,
      not_le, not_not]
    constructor
    · rintro ⟨meet, mode, pos, rfl⟩
      exact ⟨meet, ⟨t, governs, mode, rfl⟩, pos⟩
    · rintro ⟨meet, ⟨u, found, mode, rfl⟩, pos⟩
      rw [governs] at found
      obtain rfl := Option.some.inj found
      exact ⟨meet, mode, pos, rfl⟩

/-! ## Pulling one sample -/

/-- How far a time is from a boundary of an effect. -/
def Side.distance (side : Side) (durationMs timeMs : ℚ) : ℚ :=
  match side with
  | tail => durationMs - timeMs
  | head => timeMs

theorem Side.weight_eq (side : Side) {durationMs lengthMs : ℚ} (pos : 0 < lengthMs) (timeMs : ℚ) :
    side.weight durationMs lengthMs timeMs = 1 - side.distance durationMs timeMs / lengthMs := by
  cases side with
  | head => rfl
  | tail =>
    show (timeMs - (durationMs - lengthMs)) / lengthMs = 1 - (durationMs - timeMs) / lengthMs
    field_simp
    ring

/-- A pull fits into an effect if it is no longer than that. -/
structure Pull.Fits (durationMs : ℚ) (pull : Pull) : Prop where
  pos : 0 < pull.lengthMs
  le : pull.lengthMs ≤ durationMs

namespace CurvePoint

/-- A sample pulled at one end of its effect, or not pulled there. -/
def pulledBy (side : Side) (durationMs : ℚ) (pull : Option Pull) (p : CurvePoint ℚ) :
    CurvePoint ℚ :=
  match pull with
  | none => p
  | some pull => p.pulled side durationMs pull.lengthMs pull.anchor

variable {side : Side} {durationMs : ℚ} {p : CurvePoint ℚ}

@[simp] theorem pulledBy_t (side : Side) (durationMs : ℚ) (pull : Option Pull) (p : CurvePoint ℚ) :
    (p.pulledBy side durationMs pull).t = p.t := by
  cases pull with
  | none => rfl
  | some pull => exact p.pulled_t side durationMs pull.lengthMs pull.anchor

/-- **A sample away from a boundary is not pulled there.** -/
theorem pulledBy_away {o : Option Pull} (fits : ∀ pull ∈ o, pull.Fits durationMs)
    (away : ∀ pull ∈ o, pull.lengthMs ≤ side.distance durationMs (p.t * durationMs)) :
    p.pulledBy side durationMs o = p := by
  cases o with
  | none => rfl
  | some pull =>
    have length_pos := (fits pull rfl).pos
    refine if_pos ?_
    show side.weight durationMs pull.lengthMs (p.t * durationMs) ≤ 0
    rw [side.weight_eq length_pos, sub_nonpos, one_le_div length_pos]
    exact away pull rfl

/-- **A sample at a boundary is pulled all the way.** -/
theorem pulledBy_whole {pull : Pull} (pos : 0 < pull.lengthMs)
    (here : side.distance durationMs (p.t * durationMs) = 0) :
    (p.pulledBy side durationMs (some pull)).value = pull.anchor := by
  have whole : side.weight durationMs pull.lengthMs (p.t * durationMs) = 1 := by
    rw [side.weight_eq pos, here, zero_div, sub_zero]
  unfold pulledBy pulled
  dsimp only
  rw [whole, if_neg (not_le.mpr zero_lt_one), Scalar.lesser_eq_min, min_self]
  ring

/-- A sample that has the value of the anchor keeps it. -/
theorem pulled_self (side : Side) (durationMs lengthMs : ℚ) (p : CurvePoint ℚ) :
    p.pulled side durationMs lengthMs p.value = p := by
  unfold pulled
  dsimp only
  split
  · rfl
  · refine congrArg (CurvePoint.mk p.t) ?_
    ring

/-- A sample pulled at both ends of its effect. -/
def pulledBoth (durationMs : ℚ) (atStart atEnd : Option Pull) (p : CurvePoint ℚ) : CurvePoint ℚ :=
  (p.pulledBy .head durationMs atStart).pulledBy .tail durationMs atEnd

@[simp] theorem pulledBoth_t (durationMs : ℚ) (atStart atEnd : Option Pull) (p : CurvePoint ℚ) :
    (p.pulledBoth durationMs atStart atEnd).t = p.t := by
  simp [pulledBoth]

variable {atStart atEnd : Option Pull}

/-- The pull at the start does not reach the last sample. -/
theorem pulledBoth_of_finish (fits : ∀ pull ∈ atStart, pull.Fits durationMs) (finish : p.t = 1) :
    p.pulledBoth durationMs atStart atEnd = p.pulledBy .tail durationMs atEnd := by
  refine congrArg (pulledBy .tail durationMs atEnd) ?_
  refine pulledBy_away fits fun pull h => ?_
  show pull.lengthMs ≤ p.t * durationMs
  rw [finish, one_mul]
  exact (fits pull h).le

/-- The pull at the end does not reach the first sample. -/
theorem pulledBoth_of_start (fits : ∀ pull ∈ atEnd, pull.Fits durationMs) (start : p.t = 0) :
    p.pulledBoth durationMs atStart atEnd = p.pulledBy .head durationMs atStart := by
  refine pulledBy_away fits fun pull h => ?_
  show pull.lengthMs ≤ durationMs - (p.pulledBy .head durationMs atStart).t * durationMs
  rw [pulledBy_t, start, zero_mul, sub_zero]
  exact (fits pull h).le

end CurvePoint

/-! ## The ends of evenly spaced points -/

/-- **Evenly spaced points begin and end with their effect**, and give its values there. -/
theorem Curve.Even.exists_ends {c : Curve ℚ} {m : Nat} (h : c.Even (max m 2)) :
    ∃ first last, c.head? = some first ∧ first.t = 0 ∧ c.valueAt 0 = first.value ∧
      c.getLast? = some last ∧ last.t = 1 ∧ c.valueAt 1 = last.value := by
  obtain ⟨n, hn⟩ : ∃ n, max m 2 = n + 2 := ⟨max m 2 - 2, by omega⟩
  rw [hn] at h
  have inside : ∀ p ∈ c, p.t ∈ Set.Icc (0 : ℚ) 1 := by
    intro p hp
    have listed : p.t ∈ (List.range (n + 2)).map fun i => Scalar.evenTime i (n + 2) := by
      rw [← h]
      exact List.mem_map_of_mem hp
    obtain ⟨i, hi, time⟩ := List.mem_map.mp listed
    rw [← time]
    exact Scalar.evenTime_mem (List.mem_range.mp hi)
  have before_last : ∀ p ∈ c.dropLast, p.t < 1 := by
    intro p hp
    have listed : p.t ∈ (c.dropLast).map (·.t) := List.mem_map_of_mem hp
    rw [List.map_dropLast, h, List.range_succ, List.map_append, List.map_singleton,
      List.dropLast_concat] at listed
    obtain ⟨i, hi, time⟩ := List.mem_map.mp listed
    rw [← time]
    exact Scalar.evenTime_lt_one (Nat.add_lt_add_right (List.mem_range.mp hi) 1)
  have head := congrArg List.head? h
  have getLast := congrArg List.getLast? h
  rw [List.head?_map, List.range_succ_eq_map] at head
  rw [List.getLast?_map, List.range_succ, List.map_append, List.map_singleton,
    List.getLast?_concat] at getLast
  obtain ⟨first, first_eq, start⟩ := Option.map_eq_some_iff.mp head
  obtain ⟨last, last_eq, finish⟩ := Option.map_eq_some_iff.mp getLast
  refine ⟨first, last, first_eq, ?_, ?_, last_eq, ?_, ?_⟩
  · rw [start]
    unfold Scalar.evenTime
    simp
  · rw [valueAt_zero fun p hp => (inside p (List.mem_of_mem_head? hp)).1, firstValue?, first_eq]
    rfl
  · rw [finish]
    unfold Scalar.evenTime
    exact div_self (Nat.cast_ne_zero.mpr n.succ_ne_zero)
  · rw [valueAt_one (fun p hp => (inside p hp).2) before_last, lastValue?, last_eq]
    rfl

/-- What a channel shows at its ends is what its points give. -/
theorem ChannelValue.exists_ends {n m : Nat} {v : ChannelValue ℚ} {c : Curve ℚ}
    (points : v.points? n = some c) (even : c.Even (max m 2)) :
    ∃ first last, c.head? = some first ∧ first.t = 0 ∧ v.startValue = first.value ∧
      c.getLast? = some last ∧ last.t = 1 ∧ v.endValue = last.value := by
  obtain ⟨first, last, head, start, starts, getLast, finish, ends⟩ := even.exists_ends
  cases v with
  | hold level =>
    obtain rfl := Option.some.inj points
    obtain ⟨zero, one⟩ := Curve.flat_ends (level.toNat : ℚ) n
    exact ⟨first, last, head, start, zero.symm.trans starts, getLast, finish,
      one.symm.trans ends⟩
  | wave w => cases points
  | curve d =>
    obtain rfl := Option.some.inj points
    exact ⟨first, last, head, start, starts, getLast, finish, ends⟩

/-- A level that is written out is not moved by a pull towards itself. -/
theorem Curve.flat_pulled (side : Side) (durationMs lengthMs value : ℚ) (count : Nat) :
    (flat value count).map (CurvePoint.pulled side durationMs lengthMs value) =
      flat value count := by
  unfold flat sampled
  dsimp only
  rw [List.map_map]
  exact List.map_congr_left fun i _ => CurvePoint.pulled_self side durationMs lengthMs _

/-! ## One channel -/

namespace ChannelValue

/-- **How a channel has been pulled**: every sample of it at both ends of the effect, the channel
being left alone where there is no pull at either. -/
structure PulledTo (n : Nat) (durationMs : ℚ) (atStart atEnd : Option Pull)
    (v w : ChannelValue ℚ) : Prop where
  fits_start : ∀ pull ∈ atStart, pull.Fits durationMs
  fits_end : ∀ pull ∈ atEnd, pull.Fits durationMs
  alone : atStart = none → atEnd = none → w = v
  samples : ∃ c m, v.points? n = some c ∧ c.Even (max m 2) ∧
    w.points? n = some (c.map (CurvePoint.pulledBoth durationMs atStart atEnd))

/-- A channel that has points at even times, and has not been pulled yet. -/
theorem pulledTo_self {n m : Nat} (durationMs : ℚ) {v : ChannelValue ℚ} {c : Curve ℚ}
    (points : v.points? n = some c) (even : c.Even (max m 2)) :
    v.PulledTo n durationMs none none v where
  fits_start _ h := by cases h
  fits_end _ h := by cases h
  alone _ _ := rfl
  samples := by
    refine ⟨c, m, points, even, points.trans (congrArg some ?_)⟩
    exact (List.map_id c).symm

variable {n : Nat} {durationMs : ℚ} {atStart atEnd : Option Pull} {v w : ChannelValue ℚ}

/-- **What a channel shows at its end is not changed by the pull at its start.** -/
theorem PulledTo.endValue_eq (h : v.PulledTo n durationMs atStart none w) :
    w.endValue = v.endValue := by
  obtain ⟨c, m, points, even, points'⟩ := h.samples
  have even' := even.map (CurvePoint.pulledBoth_t durationMs atStart none)
  obtain ⟨-, last, -, -, -, getLast, finish, value⟩ := exists_ends points even
  obtain ⟨-, last', -, -, -, getLast', -, value'⟩ := exists_ends points' even'
  rw [List.getLast?_map, getLast, Option.map_some] at getLast'
  obtain rfl := Option.some.inj getLast'
  rw [value', value, CurvePoint.pulledBoth_of_finish h.fits_start finish]
  rfl

/-- **Read as points, a blend always pulls**: two channels that hold one level are left alone, but
pulling them would not move them. -/
theorem blended_points {y : ChannelValue ℚ} {c d : Curve ℚ} (points : w.points? n = some c)
    (points' : y.points? n = some d) (currentMs nextMs : Nat) (lengthMs : ℚ) :
    (w.blended y currentMs nextMs lengthMs n).1.points? n =
        some (c.map (CurvePoint.pulled .tail (currentMs : ℚ) lengthMs y.startValue)) ∧
      (w.blended y currentMs nextMs lengthMs n).2.points? n =
        some (d.map (CurvePoint.pulled .head (nextMs : ℚ) lengthMs w.endValue)) := by
  rcases w.blended_cases y currentMs nextMs lengthMs n with
    ⟨same, ⟨level, rfl, rfl⟩ | none | none⟩ | ⟨c', d', tail, head, pulled⟩
  · rw [same]
    obtain rfl := Option.some.inj points
    obtain rfl := Option.some.inj points'
    have still (side : Side) (ms : ℚ) := Curve.flat_pulled side ms lengthMs (level.toNat : ℚ) n
    exact ⟨congrArg some (still .tail currentMs).symm, congrArg some (still .head nextMs).symm⟩
  · rw [points] at none
    cases none
  · rw [points'] at none
    cases none
  · rw [pulled]
    rw [points] at tail
    rw [points'] at head
    obtain rfl := Option.some.inj tail
    obtain rfl := Option.some.inj head
    exact ⟨rfl, rfl⟩

/-- **One blend pulls the end of one channel and the start of the next**, each towards what the
other shows there. That the first has been pulled at its own start makes no difference. -/
theorem PulledTo.blended {currentMs nextMs : Nat} {lengthMs : ℚ} {y : ChannelValue ℚ}
    (h : v.PulledTo n currentMs atStart none w) (next : y.PulledTo n nextMs none none y)
    (fits : Pull.Fits currentMs ⟨lengthMs, y.startValue⟩)
    (fits' : Pull.Fits nextMs ⟨lengthMs, v.endValue⟩) :
    v.PulledTo n currentMs atStart (some ⟨lengthMs, y.startValue⟩)
        (w.blended y currentMs nextMs lengthMs n).1 ∧
      y.PulledTo n nextMs (some ⟨lengthMs, v.endValue⟩) none
        (w.blended y currentMs nextMs lengthMs n).2 := by
  obtain ⟨c, m, points, even, points_w⟩ := h.samples
  obtain ⟨d, l, points_y, even_y, -⟩ := next.samples
  obtain ⟨tail, head⟩ := blended_points points_w points_y currentMs nextMs lengthMs
  rw [List.map_map] at tail
  rw [h.endValue_eq] at head
  constructor
  · exact {
      fits_start := h.fits_start
      fits_end := fun pull hp => Option.some.inj hp ▸ fits
      alone := fun _ none_at_end => by cases none_at_end
      samples := ⟨c, m, points, even, tail⟩ }
  · exact {
      fits_start := fun pull hp => Option.some.inj hp ▸ fits'
      fits_end := fun pull hp => by cases hp
      alone := fun none_at_start _ => by cases none_at_start
      samples := ⟨d, l, points_y, even_y, head⟩ }

theorem PulledTo.samples_eq (h : v.PulledTo n durationMs atStart atEnd w) :
    w.samples n = (v.samples n).map (CurvePoint.pulledBoth durationMs atStart atEnd) := by
  obtain ⟨c, m, points, -, points'⟩ := h.samples
  rw [ChannelValue.samples, ChannelValue.samples, points, points', Option.getD_some,
    Option.getD_some]

/-- What is pulled has a sample at the very start and one at the very end. -/
theorem PulledTo.exists_samples (h : v.PulledTo n durationMs atStart atEnd w) :
    ∃ first last, (v.samples n).head? = some first ∧ first.t = 0 ∧
      (v.samples n).getLast? = some last ∧ last.t = 1 := by
  obtain ⟨c, m, points, even, -⟩ := h.samples
  obtain ⟨first, last, head, start, -, getLast, finish, -⟩ := even.exists_ends
  have samples : v.samples n = c := by rw [ChannelValue.samples, points, Option.getD_some]
  rw [samples]
  exact ⟨first, last, head, start, getLast, finish⟩

/-- A channel that is pulled at its start begins with what it is pulled towards. -/
theorem PulledTo.firstValue? {pull : Pull} (h : v.PulledTo n durationMs (some pull) atEnd w) :
    (w.samples n).firstValue? = some pull.anchor := by
  obtain ⟨first, -, head, start, -, -⟩ := h.exists_samples
  rw [h.samples_eq, Curve.firstValue?, List.head?_map, head, Option.map_some, Option.map_some,
    CurvePoint.pulledBoth_of_start h.fits_end start]
  refine congrArg some (CurvePoint.pulledBy_whole (h.fits_start pull rfl).pos ?_)
  show first.t * durationMs = 0
  rw [start, zero_mul]

/-- A channel that is pulled at its end ends with what it is pulled towards. -/
theorem PulledTo.lastValue? {pull : Pull} (h : v.PulledTo n durationMs atStart (some pull) w) :
    (w.samples n).lastValue? = some pull.anchor := by
  obtain ⟨-, last, -, -, getLast, finish⟩ := h.exists_samples
  rw [h.samples_eq, Curve.lastValue?, List.getLast?_map, getLast, Option.map_some,
    Option.map_some, CurvePoint.pulledBoth_of_finish h.fits_start finish]
  refine congrArg some (CurvePoint.pulledBy_whole (h.fits_end pull rfl).pos ?_)
  show durationMs - last.t * durationMs = 0
  rw [finish, one_mul, sub_self]

/-- **What has been pulled at both ends** has become what the two pulls make of it. -/
theorem PulledTo.blendsTo (h : v.PulledTo n durationMs atStart atEnd w) :
    v.BlendsTo n durationMs {pull | pull ∈ atStart} {pull | pull ∈ atEnd} w where
  alone none_at_start none_at_end := by
    refine h.alone (Option.eq_none_iff_forall_not_mem.mpr fun pull hp => ?_)
      (Option.eq_none_iff_forall_not_mem.mpr fun pull hp => ?_)
    · exact Set.eq_empty_iff_forall_notMem.mp none_at_start pull hp
    · exact Set.eq_empty_iff_forall_notMem.mp none_at_end pull hp
  first pull hp := by
    obtain rfl : atStart = some pull := hp
    exact h.firstValue?
  last pull hp := by
    obtain rfl : atEnd = some pull := hp
    exact h.lastValue?
  away := by
    rw [h.samples_eq, List.forall₂_map_right_iff, List.forall₂_same]
    intro p _
    refine ⟨CurvePoint.pulledBoth_t _ _ _ p, fun away_start away_end => ?_⟩
    have kept : p.pulledBy .head durationMs atStart = p :=
      CurvePoint.pulledBy_away h.fits_start away_start
    have kept' : p.pulledBy .tail durationMs atEnd = p :=
      CurvePoint.pulledBy_away h.fits_end away_end
    rw [CurvePoint.pulledBoth, kept, kept']

end ChannelValue

/-! ## One effect -/

namespace Effect

variable {settings : Settings ℚ}

/-- The pull at the start of a part, if there is one. -/
def pullAtStart? (settings : Settings ℚ) (before : Option (Effect ℚ)) (e : Effect ℚ)
    (k : ChannelSet.Part) : Option Pull :=
  before.bind fun b => (b.blendLength? settings e).bind fun lengthMs =>
    (b.channels.part? k).map fun v => ⟨lengthMs, v.endValue⟩

/-- The pull at the end of a part, if there is one. -/
def pullAtEnd? (settings : Settings ℚ) (e : Effect ℚ) (after : Option (Effect ℚ))
    (k : ChannelSet.Part) : Option Pull :=
  after.bind fun a => (e.blendLength? settings a).bind fun lengthMs =>
    (a.channels.part? k).map fun v => ⟨lengthMs, v.startValue⟩

theorem pullsAtStart_eq (before : Option (Effect ℚ)) (e : Effect ℚ) (k : ChannelSet.Part) :
    e.pullsAtStart settings before k = {pull | pull ∈ e.pullAtStart? settings before k} := by
  ext pull
  simp only [pullAtStart?, Set.mem_ofPred_eq, Option.mem_def, Option.bind_eq_some_iff,
    Option.map_eq_some_iff]
  constructor
  · rintro ⟨b, hb, meets, v, hv, anchor⟩
    exact ⟨b, hb, pull.lengthMs, blendLength?_eq_some.mpr meets, v, hv, by rw [anchor]⟩
  · rintro ⟨b, hb, lengthMs, meets, v, hv, rfl⟩
    exact ⟨b, hb, blendLength?_eq_some.mp meets, v, hv, rfl⟩

theorem pullsAtEnd_eq (e : Effect ℚ) (after : Option (Effect ℚ)) (k : ChannelSet.Part) :
    e.pullsAtEnd settings after k = {pull | pull ∈ e.pullAtEnd? settings after k} := by
  ext pull
  simp only [pullAtEnd?, Set.mem_ofPred_eq, Option.mem_def, Option.bind_eq_some_iff,
    Option.map_eq_some_iff]
  constructor
  · rintro ⟨a, ha, meets, v, hv, anchor⟩
    exact ⟨a, ha, pull.lengthMs, blendLength?_eq_some.mpr meets, v, hv, by rw [anchor]⟩
  · rintro ⟨a, ha, lengthMs, meets, v, hv, rfl⟩
    exact ⟨a, ha, blendLength?_eq_some.mp meets, v, hv, rfl⟩

/-- How an effect has been pulled, part by part. -/
structure PulledTo (settings : Settings ℚ) (atStart atEnd : ChannelSet.Part → Option Pull)
    (e d : Effect ℚ) : Prop where
  frame : d.frame = e.frame
  color : d.channels.color = e.channels.color
  gobo : d.channels.gobo = e.channels.gobo
  parts : ∀ k, Option.Rel
    (ChannelValue.PulledTo (max settings.curvePoints 2) e.durationMs (atStart k) (atEnd k))
    (e.channels.part? k) (d.channels.part? k)

theorem PulledTo.blendsTo {before after : Option (Effect ℚ)} {e d : Effect ℚ}
    (h : e.PulledTo settings (e.pullAtStart? settings before) (e.pullAtEnd? settings after) d) :
    e.BlendsTo settings before after d where
  frame := h.frame
  color := h.color
  gobo := h.gobo
  parts k := by
    rw [pullsAtStart_eq, pullsAtEnd_eq]
    exact ChannelSet.rel_imp (fun _ _ pulled => pulled.blendsTo) (h.parts k)

/-- The length of a blend is decided by frames. -/
theorem blendLength?_congr (settings : Settings ℚ) {e o : Effect ℚ} (same : o.frame = e.frame)
    (next : Effect ℚ) :
    o.blendLength? settings next = e.blendLength? settings next := by
  have starts : o.startMs = e.startMs := congrArg Frame.startMs same
  have ends : o.endMs = e.endMs := congrArg Frame.endMs same
  have boundary : o.boundary = e.boundary := congrArg Frame.boundary same
  unfold blendLength? boundaryTransition transitionTo durationMs
  rw [starts, ends, boundary]

omit [ExactReading] in
/-- A blend takes no more than its share of either of its effects. -/
theorem Crossfades.le_shares {current next : Effect ℚ} {lengthMs : ℚ}
    (h : current.Crossfades settings next lengthMs) :
    lengthMs ≤ settings.blendFraction * current.durationMs ∧
      lengthMs ≤ settings.blendFraction * next.durationMs := by
  obtain ⟨-, ⟨t, -, -, length⟩, -⟩ := h
  rw [length]
  exact ⟨(min_le_left _ _).trans (min_le_right _ _), min_le_right _ _⟩

omit [ExactReading] in
/-- A blend takes no longer than either of its effects, as long as its share is no more than all of
them. -/
theorem Crossfades.fits {current next : Effect ℚ} {lengthMs : ℚ}
    (h : current.Crossfades settings next lengthMs) (share : settings.blendFraction ≤ 1)
    (anchor : ℚ) : Pull.Fits current.durationMs ⟨lengthMs, anchor⟩ ∧
      Pull.Fits next.durationMs ⟨lengthMs, anchor⟩ := by
  have some_of (ms : Nat) : settings.blendFraction * (ms : ℚ) ≤ ms :=
    mul_le_of_le_one_left (Nat.cast_nonneg ms) share
  obtain ⟨le_current, le_next⟩ := h.le_shares
  exact ⟨⟨h.pos, le_current.trans (some_of _)⟩, ⟨h.pos, le_next.trans (some_of _)⟩⟩

/-- An effect that has not been pulled yet. -/
def Fresh (settings : Settings ℚ) (e : Effect ℚ) : Prop :=
  e.PulledTo settings (fun _ => none) (fun _ => none) e

section Step

variable {before : Option (Effect ℚ)} {e o next : Effect ℚ}

/-- Neighbours that do not meet in a crossfade stay as they are, and neither is pulled. -/
theorem PulledTo.blended_of_none
    (h : e.PulledTo settings (e.pullAtStart? settings before) (fun _ => none) o)
    (fresh : next.Fresh settings) (length : e.blendLength? settings next = none) :
    e.PulledTo settings (e.pullAtStart? settings before) (e.pullAtEnd? settings (some next))
        (o.blended settings next).1 ∧
      next.PulledTo settings (next.pullAtStart? settings (some e)) (fun _ => none)
        (o.blended settings next).2 := by
  have none_at_end : e.pullAtEnd? settings (some next) = fun _ => none := by
    funext k
    simp [pullAtEnd?, length]
  have none_at_start : next.pullAtStart? settings (some e) = fun _ => none := by
    funext k
    simp [pullAtStart?, length]
  have untouched : o.blended settings next = (o, next) := by
    rw [Effect.blended, blendLength?_congr settings h.frame, length]
  rw [untouched, none_at_end, none_at_start]
  exact ⟨h, fresh⟩

/-- Neighbours that meet in a crossfade are pulled, part by part. -/
theorem PulledTo.blended_of_some
    (h : e.PulledTo settings (e.pullAtStart? settings before) (fun _ => none) o)
    (fresh : next.Fresh settings) (share : settings.blendFraction ≤ 1) {lengthMs : ℚ}
    (length : e.blendLength? settings next = some lengthMs) :
    e.PulledTo settings (e.pullAtStart? settings before) (e.pullAtEnd? settings (some next))
        (o.blended settings next).1 ∧
      next.PulledTo settings (next.pullAtStart? settings (some e)) (fun _ => none)
        (o.blended settings next).2 := by
  have at_end : e.pullAtEnd? settings (some next) = fun k =>
      (next.channels.part? k).map fun v => ⟨lengthMs, v.startValue⟩ := by
    funext k
    simp [pullAtEnd?, length]
  have at_start : next.pullAtStart? settings (some e) = fun k =>
      (e.channels.part? k).map fun v => ⟨lengthMs, v.endValue⟩ := by
    funext k
    simp [pullAtStart?, length]
  have lasts : o.durationMs = e.durationMs := congrArg₂ (· - ·)
    (congrArg Frame.endMs h.frame) (congrArg Frame.startMs h.frame)
  have pulled : o.blended settings next =
      ({ o with channels := (o.channels.blended next.channels e.durationMs next.durationMs
          lengthMs (max settings.curvePoints 2)).1 },
        { next with channels := (o.channels.blended next.channels e.durationMs next.durationMs
          lengthMs (max settings.curvePoints 2)).2 }) := by
    rw [Effect.blended, blendLength?_congr settings h.frame, length, lasts]
  have fits := (blendLength?_eq_some.mp length).fits share
  have parts (k : ChannelSet.Part) := ChannelSet.rel_part?_blended
    (S := fun y => ChannelValue.PulledTo (max settings.curvePoints 2) e.durationMs
      (e.pullAtStart? settings before k) (y.map fun v => ⟨lengthMs, v.startValue⟩))
    (T := fun v => ChannelValue.PulledTo (max settings.curvePoints 2) next.durationMs
      (v.map fun v => ⟨lengthMs, v.endValue⟩) none)
    (h.parts k) (fresh.parts k) (fun _ _ known => known) (fun _ _ known => known)
    (fun v w y y' known known' => by
      -- the later of the two has not been pulled, so it still is what it was
      obtain rfl : y' = y := known'.alone rfl rfl
      exact known.blended known' (fits _).1 (fits _).2)
  rw [pulled, at_end, at_start]
  exact ⟨⟨h.frame, h.color, h.gobo, fun k => (parts k).1⟩,
    ⟨rfl, rfl, rfl, fun k => (parts k).2⟩⟩

/-- **One blend of two effects**, of which the first may have been pulled at its start. The second
is pulled towards what the first was before that. -/
theorem PulledTo.blended
    (h : e.PulledTo settings (e.pullAtStart? settings before) (fun _ => none) o)
    (fresh : next.Fresh settings) (share : settings.blendFraction ≤ 1) :
    e.PulledTo settings (e.pullAtStart? settings before) (e.pullAtEnd? settings (some next))
        (o.blended settings next).1 ∧
      next.PulledTo settings (next.pullAtStart? settings (some e)) (fun _ => none)
        (o.blended settings next).2 := by
  cases length : e.blendLength? settings next with
  | none => exact h.blended_of_none fresh length
  | some lengthMs => exact h.blended_of_some fresh share length

end Step

/-- A drawn effect without a wave can be pulled. -/
theorem fresh_drawn (e : Effect ℚ) (count : Nat)
    (no_wave : (e.drawn count).channels.hasWave = false) : (e.drawn count).Fresh settings := by
  refine ⟨rfl, rfl, rfl, fun k => ?_⟩
  have drawn : Option.Rel (ChannelValue.FinishedTo (max count 2)) (e.channels.part? k)
    ((e.drawn count).channels.part? k) := (e.channels.drawn_finishedTo count).parts k
  cases part : (e.drawn count).channels.part? k with
  | none => exact .none
  | some v =>
    refine .some ?_
    cases v with
    | hold level => exact ChannelValue.pulledTo_self _ rfl (Curve.even_flat _ _)
    | wave w =>
      have listed := ChannelSet.mem_values_of_part? part
      exact absurd rfl (List.any_eq_false.mp no_wave _ listed)
    | curve c =>
      rw [part] at drawn
      generalize e.channels.part? k = o at drawn
      cases drawn with
      | some finished => exact ChannelValue.pulledTo_self _ rfl (finished.even_of_points? rfl)

end Effect

/-! ## All effects of a head -/

namespace Timeline

variable {settings : Settings ℚ}

/-- **One blend after another.** The effect that is blended next has been pulled at its start and
not at its end, and those after it have not been pulled at all; the induction is on these. -/
theorem blendFrom_pulledTo (share : settings.blendFraction ≤ 1) {before : Option (Effect ℚ)}
    {e o : Effect ℚ} {rest : List (Effect ℚ)}
    (h : e.PulledTo settings (e.pullAtStart? settings before) (fun _ => none) o)
    (fresh : ∀ n ∈ rest, n.Fresh settings) :
    EachInContext (fun before after e d => e.PulledTo settings (e.pullAtStart? settings before)
      (e.pullAtEnd? settings after) d) before (e :: rest) (blendFrom settings o rest) := by
  induction rest generalizing before e o with
  | nil => exact .cons h (.nil (some e))
  | cons next rest ih =>
    obtain ⟨fresh_next, fresh_rest⟩ := List.forall_mem_cons.mp fresh
    obtain ⟨earlier, later⟩ := h.blended fresh_next share
    exact .cons earlier (ih later fresh_rest)

theorem blend_of_wave {effects : List (Effect ℚ)}
    (wave : ∃ e ∈ effects, e.channels.hasWave = true) : blend settings effects = effects := by
  cases effects with
  | nil => rfl
  | cons e rest => exact if_pos (List.any_eq_true.mpr wave)

theorem blend_of_no_wave {e : Effect ℚ} {rest : List (Effect ℚ)}
    (no_wave : ∀ n ∈ e :: rest, n.channels.hasWave = false) :
    blend settings (e :: rest) = blendFrom settings e rest := by
  refine if_neg fun some_wave => ?_
  obtain ⟨n, hn, wave⟩ := List.any_eq_true.mp some_wave
  rw [no_wave n hn] at wave
  cases wave

/-- **Every drawn effect is pulled** towards what its neighbours showed before any blend, where none
has a wave and no blend may cover more than a whole effect. -/
theorem blend_pulledTo (share : settings.blendFraction ≤ 1) (originals : List (Effect ℚ))
    (count : Nat)
    (no_wave : ∀ e ∈ originals.map (Effect.drawn count), e.channels.hasWave = false) :
    EachInContext (fun before after e d => e.PulledTo settings (e.pullAtStart? settings before)
      (e.pullAtEnd? settings after) d) none (originals.map (Effect.drawn count))
      (blend settings (originals.map (Effect.drawn count))) := by
  have fresh : ∀ e ∈ originals.map (Effect.drawn count), e.Fresh settings := by
    intro e he
    obtain ⟨original, -, rfl⟩ := List.mem_map.mp he
    exact original.fresh_drawn count (no_wave _ he)
  generalize originals.map (Effect.drawn count) = effects at no_wave fresh ⊢
  cases effects with
  | nil => exact .nil none
  | cons e rest =>
    obtain ⟨first, others⟩ := List.forall_mem_cons.mp fresh
    have start : e.PulledTo settings (e.pullAtStart? settings none) (fun _ => none) e := first
    rw [blend_of_no_wave no_wave]
    exact blendFrom_pulledTo share start others

/-- **Blending the drawn effects of a head.** Where one of them has a wave, nothing happens. Where
none has, each comes out blended with its neighbours as they were, as long as no blend may cover
more than a whole effect. -/
theorem blend_crossfades (settings : Settings ℚ) (share : settings.blendFraction ≤ 1)
    (originals : List (Effect ℚ)) (count : Nat) :
    let effects := originals.map (Effect.drawn count)
    ((∃ e ∈ effects, e.channels.hasWave = true) → blend settings effects = effects) ∧
      ((∀ e ∈ effects, e.channels.hasWave = false) →
        EachInContext (fun before after e d => e.BlendsTo settings before after d) none effects
          (blend settings effects)) := by
  intro effects
  exact ⟨blend_of_wave, fun no_wave =>
    (blend_pulledTo share originals count no_wave).imp fun _ _ _ _ pulled => pulled.blendsTo⟩

end Timeline

end Exact

/-- A level, a line and another level, with a crossfade at each boundary. -/
theorem Timeline.blend_crossfades_of_three_pans :
    letI := ExactReading.parabolic
    let fading (pan : ChannelValue ℚ) (startMs endMs : Nat) : Effect ℚ := {
      fixtureId := "MH1"
      startMs := startMs
      endMs := endMs
      channels := { pan := pan, tilt := .hold 90, dimmer := .hold 255 }
      boundary := { exit := some ⟨.crossfade, 1000⟩ }
      label := ""
      metadata := [] }
    let first := fading (.hold 10) 0 4000
    let second := fading (.curve (Curve.linear 200 50)) 4000 8000
    let third := fading (.hold 90) 8000 9000
    let effects := [first, second, third].map (Effect.drawn 25)
    Settings.standard.blendFraction ≤ (1 : ℚ) ∧
      first.Crossfades .standard second 1000 ∧ second.Crossfades .standard third 300 ∧
      (∀ e ∈ effects, e.channels.hasWave = false) ∧
      EachInContext (fun before after e d => e.BlendsTo .standard before after d) none effects
        (blend .standard effects) := by
  intro fading first second third effects
  let reading := ExactReading.parabolic
  have fraction : (Settings.standard : Settings ℚ).blendFraction = 0.3 := rfl
  have share : Settings.standard.blendFraction ≤ (1 : ℚ) := by
    rw [fraction]
    norm_num
  have requested : Transition.requestedMs ⟨.crossfade, 1000⟩
      (Settings.standard : Settings ℚ).defaultBlendMs = 1000 := if_pos (by decide)
  have lasts (pan : ChannelValue ℚ) (a b : Nat) : (fading pan a b).durationMs = b - a := rfl
  have early : first.Crossfades .standard second 1000 := by
    refine ⟨Nat.le_refl _, ⟨⟨.crossfade, 1000⟩, rfl, rfl, ?_⟩, by norm_num⟩
    rw [requested, fraction, lasts, lasts]
    norm_num
  have late : second.Crossfades .standard third 300 := by
    refine ⟨Nat.le_refl _, ⟨⟨.crossfade, 1000⟩, rfl, rfl, ?_⟩, by norm_num⟩
    rw [requested, fraction, lasts, lasts]
    norm_num
  have no_wave : ∀ e ∈ effects, e.channels.hasWave = false := by
    intro e he
    obtain ⟨original, ho, rfl⟩ := List.mem_map.mp he
    simp only [List.mem_cons, List.not_mem_nil, or_false] at ho
    rcases ho with rfl | rfl | rfl <;> rfl
  exact ⟨share, early, late, no_wave,
    (blend_crossfades .standard share [first, second, third] 25).2 no_wave⟩

end MovingLight
