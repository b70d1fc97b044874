import MovingLight.Proofs.Formation.Scatter

/-!
# Trials — what two, three and four heads say of all

Whether a formation sets heads apart is tried on three small selections. For eight formations that
settles it: their heads are framed by two of a trial (`Formation.Framed`), so where these are no
further apart than the tolerance, no two heads of any selection are. Audience scans,
alternating heads and every wash but a tight one are told apart by any trial.

Three formations are not framed, and trials speak for some selections only
(`Formation.Judged`). The heads of a wave are later by a spacing from one to the next, so four
heads may be within the tolerance and the fifth beyond it. The heads of a tunnel are on a circle
that starts at the first one: none is further from the first than those of four that are a
quarter off, but two others are up to twice as far from each other, which shows when the first
is named once more and moves to its later place. A scatter draws again for each head, from a
seed that the ids of a trial do not share with others. The last theorem has a selection for each
of these.
-/

namespace MovingLight

open Scalar

variable {α : Type} [Scalar α]

/-! ## Alike -/

theorem Movement.differsSpatially_eq_false_iff {m n : Movement α} :
    m.differsSpatially n = false ↔ apart m.panOffsetDeg n.panOffsetDeg = false ∧
      apart m.tiltOffsetDeg n.tiltOffsetDeg = false ∧ apart m.phaseDeg n.phaseDeg = false ∧
        m.tiltRole = n.tiltRole := by
  unfold differsSpatially
  simp only [Bool.or_eq_false_iff, bne_eq_false_iff_eq, and_assoc]

theorem Movement.not_differsSpatially_self [MonotoneLaws α] (m : Movement α) :
    m.differsSpatially m = false :=
  differsSpatially_eq_false_iff.mpr ⟨MonotoneLaws.apart_self _, MonotoneLaws.apart_self _,
    MonotoneLaws.apart_self _, rfl⟩

namespace Formation

variable {f : Formation} {p : Params}

/-- **In no trial selection does a head differ from the leftmost.** -/
def Together (α : Type) [Scalar α] (f : Formation) (p : Params) : Prop :=
  ∀ n ∈ trialSizes, ∀ j, j + 1 < n → Movement.differsSpatially
    (f.place p (seed p (trialIds n)) (Movement.hold : Movement α) (.ofIndex n (j + 1)))
    (f.place p (seed p (trialIds n)) Movement.hold (.ofIndex n 0)) = false

theorem anyApart_map_range {g : Nat → Movement α} {n : Nat}
    (h : anyApart ((List.range n).map g) = false) {j : Nat} (inside : j + 1 < n) :
    (g (j + 1)).differsSpatially (g 0) = false := by
  obtain ⟨k, rfl⟩ : ∃ k, n = k + 1 := ⟨n - 1, by omega⟩
  rw [List.range_succ_eq_map, List.map_cons] at h
  have others := List.any_eq_false.mp h (g (j + 1))
    (List.mem_map.mpr ⟨j + 1, List.mem_map.mpr ⟨j, List.mem_range.mpr (by omega), rfl⟩, rfl⟩)
  exact Bool.eq_false_iff.mpr others

theorem together_of_spreads {kind : Option String} (known : kind.bind ofName? = some f)
    (h : spreads α kind p = false) : Together α f p := by
  intro n size j inside
  unfold spreads at h
  rw [known] at h
  have trial := Bool.eq_false_iff.mpr (List.any_eq_false.mp h n size)
  unfold distribute Slot.all at trial
  rw [List.map_map] at trial
  have length : (trialIds n).length = n := by
    unfold trialIds
    rw [List.length_map, List.length_range]
  rw [length] at trial
  exact anyApart_map_range trial inside

/-! ## Formations whose trials frame all selections -/

section Framed

variable [OrderLaws α] [MonotoneLaws α]

theorem Frames.not_apart {g : Slot α → α} (h : Frames g)
    (close : ∀ n ∈ trialSizes, ∀ j, j + 1 < n →
      Movement.apart (g (.ofIndex n (j + 1))) (g (.ofIndex n 0)) = false)
    {m i j : Nat} (hi : i < m) (hj : j < m) :
    Movement.apart (g (.ofIndex m i)) (g (.ofIndex m j)) = false := by
  obtain ⟨n, size, k, inside, frame⟩ := h
  refine (frame m i hi).not_apart (frame m j hj) ?_
  cases k with
  | zero => exact MonotoneLaws.apart_self _
  | succ k =>
    rw [MonotoneLaws.apart_comm]
    exact close n size k inside

/-- **Heads that are framed by two heads of a trial are as close as those.** -/
theorem alike_of_framed {place : Slot α → Movement α} (framed : Framed place)
    (trials : ∀ n ∈ trialSizes, ∀ j, j + 1 < n →
      (place (.ofIndex n (j + 1))).differsSpatially (place (.ofIndex n 0)) = false)
    {m i j : Nat} (hi : i < m) (hj : j < m) :
    (place (.ofIndex m i)).differsSpatially (place (.ofIndex m j)) = false := by
  have close n size j inside :=
    Movement.differsSpatially_eq_false_iff.mp (trials n size j inside)
  refine Movement.differsSpatially_eq_false_iff.mpr ⟨?_, ?_, ?_, framed.role _ _⟩
  · exact framed.pan.not_apart (fun n size j inside => (close n size j inside).1) hi hj
  · exact framed.tilt.not_apart (fun n size j inside => (close n size j inside).2.1) hi hj
  · rw [framed.phase (.ofIndex m i) (.ofIndex m j)]
    exact MonotoneLaws.apart_self _

end Framed

/-! ## Formations that always set heads apart -/

section Uneven

variable [StageLaws α] [FormationLaws α]

/-- A table that is not flat sets two heads apart. -/
theorem apart_of_mem_unevenTables {preset : List α} (h : preset ∈ unevenTables α) :
    Movement.apart (placePreset preset Movement.hold (.ofIndex 2 1)).panOffsetDeg
      (placePreset preset Movement.hold (.ofIndex 2 0)).panOffsetDeg = true := by
  show Movement.apart (0 + presetAt preset (Slot.ofIndex 2 1 : Slot α).position)
    (0 + presetAt preset (Slot.ofIndex 2 0 : Slot α).position) = true
  rw [Slot.ofIndex_left, Slot.ofIndex_right]
  have four : ∃ a b c d : α, preset = [a, b, c, d] := by
    unfold unevenTables audiencePreset washPreset at h
    simp only [List.mem_cons, List.not_mem_nil, or_false] at h
    rcases h with rfl | rfl | rfl | rfl | rfl | rfl <;> exact ⟨_, _, _, _, rfl⟩
  obtain ⟨a, b, c, d, rfl⟩ := four
  obtain ⟨k, hk, right⟩ := exists_presetAt a b c d 1
  obtain ⟨l, hl, left⟩ := exists_presetAt a b c d 0
  rw [left, right]
  exact FormationLaws.apart_entries _ h k hk l hl

theorem not_together_of_uneven {preset : List α} (h : preset ∈ unevenTables α)
    (place : ∀ s, f.place p s (Movement.hold : Movement α) = placePreset preset Movement.hold) :
    ¬Together α f p := by
  intro together
  have two := together 2 (by decide) 0 (by decide)
  rw [place] at two
  have close := (Movement.differsSpatially_eq_false_iff.mp two).1
  rw [apart_of_mem_unevenTables h] at close
  cases close

end Uneven

/-- No audience scan is flat. -/
theorem audiencePreset_mem (coverage : String) : audiencePreset coverage ∈ unevenTables α := by
  unfold audiencePreset
  split
  · exact .head _
  · exact .tail _ (.tail _ (.head _))
  · exact .tail _ (.tail _ (.tail _ (.head _)))
  · exact .tail _ (.head _)

theorem not_together_alternating : ¬Together α .alternating p := by
  intro together
  have two := together 2 (by decide) 0 (by decide)
  have three := together 3 (by decide) 1 (by decide)
  have role := (Movement.differsSpatially_eq_false_iff.mp two).2.2.2
  have role' := (Movement.differsSpatially_eq_false_iff.mp three).2.2.2
  simp only [place, placeAlternating, Slot.ofIndex] at role role'
  split at role
  · rename_i pairs
    simp [pairs] at role'
  · simp at role

/-! ## The wave -/

/-- How late a head of a wave is after a number of steps. -/
def wavePhase (spacing : α) (step : Nat) : α := emod (0 + (step : α) * spacing) 360

/-- Each head of a wave has taken fewer steps than there are heads. -/
theorem exists_wavePhase {m i : Nat} (h : i < m) {x : α}
    (spacing : p.number? "phase_spacing" = some x) :
    ∃ k < m, placeWave p Movement.hold (.ofIndex m i) =
      { (Movement.hold : Movement α) with phaseDeg := wavePhase x k } := by
  have count : max m 1 = m := Nat.max_eq_left (Nat.one_le_of_lt h)
  unfold placeWave Movement.withPhase wavePhase
  simp only [spacing, Option.getD_some, Slot.ofIndex, count]
  split
  · exact ⟨m - 1 - i, by omega, rfl⟩
  · exact ⟨i, h, rfl⟩

section Wave

/-- In a trial some head has taken every number of steps that there are heads for. -/
theorem apart_wavePhase [MonotoneLaws α] {x : α} (spacing : p.number? "phase_spacing" = some x)
    (together : Together α .wave p) {k : Nat} (h : k < 4) :
    Movement.apart (wavePhase x k) (wavePhase x 0) = false := by
  cases k with
  | zero => exact MonotoneLaws.apart_self _
  | succ k =>
    have size : k + 2 ∈ trialSizes := by
      obtain rfl | rfl | rfl : k = 0 ∨ k = 1 ∨ k = 2 := by omega
      all_goals decide
    have late := (Movement.differsSpatially_eq_false_iff.mp
      (together (k + 2) size k (by omega))).2.2.1
    simp only [place, placeWave, Movement.withPhase, spacing, Option.getD_some,
      Slot.ofIndex] at late
    split at late
    · -- backwards it is the leftmost head that is late
      have last : max (k + 2) 1 - 1 - 0 = k + 1 := by omega
      have first : max (k + 2) 1 - 1 - (k + 1) = 0 := by omega
      rw [last, first] at late
      rw [MonotoneLaws.apart_comm]
      exact late
    · exact late

/-- A wave that is not told its spacing takes a whole turn for all heads. -/
theorem exists_spacing [MonotoneLaws α] [FormationLaws α] (together : Together α .wave p) :
    ∃ x : α, p.number? "phase_spacing" = some x := by
  refine Option.ne_none_iff_exists'.mp fun none => ?_
  have late := (Movement.differsSpatially_eq_false_iff.mp
    (together 2 (by decide) 0 (by decide))).2.2.1
  have half := FormationLaws.apart_half_turn (α := α)
  simp only [place, placeWave, Movement.withPhase, none, Option.getD_none, Slot.ofIndex] at late
  split at late
  · rw [MonotoneLaws.apart_comm] at half
    exact Bool.eq_false_iff.mp late half
  · exact Bool.eq_false_iff.mp late half

theorem wavePhase_zero [ZeroLaws α] {x : α} (finite : isFinite x = true) : wavePhase x 0 = 0 := by
  unfold wavePhase
  rw [ZeroLaws.zero_add_zero_mul x finite]
  exact ZeroLaws.emod_turn

variable [OrderLaws α] [MonotoneLaws α]

/-- **Heads no later than a trial can tell are no further apart**: phases are not negative. -/
theorem apart_of_near_zero {x y : α} (hx : x ≤ x → 0 ≤ x) (hy : y ≤ y → 0 ≤ y)
    (near : Movement.apart x 0 = false) (near' : Movement.apart y 0 = false) :
    Movement.apart x y = false := by
  have further {a b : α} (above : 0 ≤ a) (le : a ≤ b) (apart : Movement.apart a b = true) :
      Movement.apart b 0 = true := by
    rw [MonotoneLaws.apart_comm]
    exact MonotoneLaws.apart_of_le 0 a b b above le (OrderLaws.le_self_of_le a b le).2 apart
  refine Bool.eq_false_iff.mpr fun apart => ?_
  obtain ⟨definite_x, definite_y⟩ := MonotoneLaws.le_self_of_apart x y apart
  rcases Amid.total definite_x definite_y with le | le
  · exact Bool.eq_false_iff.mp near' (further (hx definite_x) le apart)
  · rw [MonotoneLaws.apart_comm] at apart
    exact Bool.eq_false_iff.mp near (further (hy definite_y) le apart)

/-- **A wave that leaves four heads together does so for any four.** -/
theorem alike_wave [FormationLaws α] [ZeroLaws α] (together : Together α .wave p) {m i j : Nat}
    (few : m ≤ 4) (hi : i < m) (hj : j < m) :
    (placeWave p Movement.hold (.ofIndex m i)).differsSpatially
      (placeWave p (Movement.hold : Movement α) (.ofIndex m j)) = false := by
  obtain ⟨x, spacing⟩ := exists_spacing together
  have start := wavePhase_zero (x := x) (Option.mem_filter_iff.mp spacing).2
  obtain ⟨k, hk, placed⟩ := exists_wavePhase hi spacing
  obtain ⟨l, hl, placed'⟩ := exists_wavePhase hj spacing
  have near := apart_wavePhase spacing together (hk.trans_le few)
  have near' := apart_wavePhase spacing together (hl.trans_le few)
  rw [start] at near near'
  rw [placed, placed']
  refine Movement.differsSpatially_eq_false_iff.mpr
    ⟨MonotoneLaws.apart_self _, MonotoneLaws.apart_self _, ?_, rfl⟩
  exact apart_of_near_zero (MonotoneLaws.emod_turn_nonneg _) (MonotoneLaws.emod_turn_nonneg _)
    near near'

end Wave

/-! ## The tunnel -/

end Formation

/-- **What a library says of the sine and the cosine**: they stay within one, and four heads on a
circle stand at its quarters. -/
structure Scalar.QuarterTurns (α : Type) [Scalar α] : Prop where
  sin_mem : ∀ x : α, sin x ≤ sin x → -1 ≤ sin x ∧ sin x ≤ 1
  cos_mem : ∀ x : α, cos x ≤ cos x → -1 ≤ cos x ∧ cos x ≤ 1
  sin_zero : sin (0 : α) = 0
  cos_zero : cos (0 : α) = 1
  sin_quarter : sin (((1 : Nat) : α) * 360 / ((4 : Nat) : α) * degree) = 1
  cos_half : cos (((2 : Nat) : α) * 360 / ((4 : Nat) : α) * degree) = -1
  sin_three_quarters : sin (((3 : Nat) : α) * 360 / ((4 : Nat) : α) * degree) = -1

namespace Formation

section Tunnel

variable {p : Params}

/-- Where a head stands on the circle. -/
def tunnelAngle (m i : Nat) : α := (i : α) * 360 / ((max m 1 : Nat) : α) * degree

def tunnelPan (p : Params) (angle : α) : α :=
  0 + (p.number "center_pan_deg" 0 + cos angle * p.number "pan_spread_deg" 60 / 2)

def tunnelTilt (p : Params) (angle : α) : α := 0 + sin angle * p.number "radius" 1 * 10

theorem placeTunnel_eq (m i : Nat) : placeTunnel p (Movement.hold : Movement α) (.ofIndex m i) =
    { (Movement.hold : Movement α) with
      panOffsetDeg := tunnelPan p (tunnelAngle m i)
      tiltOffsetDeg := tunnelTilt p (tunnelAngle m i) } := rfl

theorem tunnelAngle_zero [FormationLaws α] (m : Nat) : (tunnelAngle m 0 : α) = 0 :=
  FormationLaws.first_angle _ (Nat.lt_of_lt_of_le Nat.one_pos (Nat.le_max_right m 1))

variable [OrderLaws α] [MonotoneLaws α] [StageLaws α] (turns : QuarterTurns α)

include turns

theorem amid_tunnelPan (x : α) :
    Amid (tunnelPan p 0) (tunnelPan p (tunnelAngle 4 2)) (tunnelPan p x) := by
  unfold tunnelPan
  have spread : isFinite (p.number "pan_spread_deg" 60 : α) = true :=
    isFinite_number p _ (by norm_num)
  have center : isFinite (p.number "center_pan_deg" 0 : α) = true :=
    isFinite_number p _ (by norm_num)
  have wide : Amid 1 (-1) (cos x) := fun definite => Or.inr (turns.cos_mem x definite)
  have half : cos (tunnelAngle 4 2) = (-1 : α) := turns.cos_half
  rw [turns.cos_zero, half]
  have scaled := (wide.mul_right Slot.isFinite_one Slot.isFinite_neg_one fun _ => spread).half
    (isFinite_sides spread).2 (isFinite_sides spread).1
  exact (scaled.add_left center).add_left Slot.isFinite_zero

/-- A head on the circle stands between its start and one quarter or the other. -/
theorem amid_tunnelTilt (x : α) :
    Amid (tunnelTilt p 0) (tunnelTilt p (tunnelAngle 4 1)) (tunnelTilt p x) ∨
      Amid (tunnelTilt p 0) (tunnelTilt p (tunnelAngle 4 3)) (tunnelTilt p x) := by
  unfold tunnelTilt
  have radius : isFinite (p.number "radius" 1 : α) = true := isFinite_number p _ (by norm_num)
  have ten : isFinite (10 : α) = true := StageLaws.isFinite_literal 10 (by norm_num)
  have upper : sin (tunnelAngle 4 1) = (1 : α) := turns.sin_quarter
  have lower : sin (tunnelAngle 4 3) = (-1 : α) := turns.sin_three_quarters
  rw [turns.sin_zero, upper, lower]
  have none := (null_zero.mul_right radius).isFinite
  by_cases definite : sin x ≤ sin x
  · obtain ⟨above, below⟩ := turns.sin_mem x definite
    rcases Amid.total zero_le_zero definite with nonneg | nonpos
    · have scaled := (Amid.of_le nonneg below).mul_right Slot.isFinite_zero Slot.isFinite_one
        fun _ => radius
      exact Or.inl ((scaled.mul_right none (isFinite_sides radius).2 fun _ => ten).add_left
        Slot.isFinite_zero)
    · have scaled := (Amid.of_le above nonpos).symm.mul_right Slot.isFinite_zero
        Slot.isFinite_neg_one fun _ => radius
      exact Or.inr ((scaled.mul_right none (isFinite_sides radius).1 fun _ => ten).add_left
        Slot.isFinite_zero)
  · refine Or.inl (Amid.of_indefinite fun tilted => definite ?_)
    exact (MonotoneLaws.le_self_of_mul _ _ (MonotoneLaws.le_self_of_mul _ _
      (MonotoneLaws.le_self_of_add _ _ tilted).2).1).1

/-- **Where four heads of a tunnel are as good as together, none is far from the first.** -/
theorem alike_tunnel [FormationLaws α] (together : Together α .tunnel p) (m i : Nat) :
    (placeTunnel p Movement.hold (.ofIndex m i)).differsSpatially
      (placeTunnel p (Movement.hold : Movement α) (.ofIndex m 0)) = false := by
  have quarter {j : Nat} (h : j + 1 < 4) :=
    Movement.differsSpatially_eq_false_iff.mp (together 4 (by decide) j h)
  simp only [place, placeTunnel_eq, tunnelAngle_zero] at quarter
  rw [placeTunnel_eq, placeTunnel_eq, tunnelAngle_zero]
  refine Movement.differsSpatially_eq_false_iff.mpr ⟨?_, ?_, MonotoneLaws.apart_self _, rfl⟩
  · have close := (quarter (j := 1) (by decide)).1
    rw [MonotoneLaws.apart_comm] at close
    exact (amid_tunnelPan turns _).not_apart_left close
  · rcases amid_tunnelTilt (p := p) turns (tunnelAngle m i) with up | down
    · have close := (quarter (j := 0) (by decide)).2.1
      rw [MonotoneLaws.apart_comm] at close
      exact up.not_apart_left close
    · have close := (quarter (j := 2) (by decide)).2.1
      rw [MonotoneLaws.apart_comm] at close
      exact down.not_apart_left close

end Tunnel

/-! ## All formations -/

/-- **The selections that trials speak for.** Trials compare four heads at most, and only with the
first of them: a wave may need more heads to set some apart, a circle and a scatter keep to the
first head if it is named once, and a scatter is the same in another selection if it is told its
seed. -/
def Judged (f : Formation) (p : Params) (first : String) (rest : List String) : Prop :=
  match f with
  | .wave => rest.length < 4
  | .tunnel => first ∉ rest
  | .scatter => first ∉ rest ∧ (rest = [] ∨ rest.length < 4 ∧ (p.whole? "seed").isSome = true)
  | _ => True

/-- **No head of a selection differs from its first.** -/
def AllAlike (α : Type) [Scalar α] (kind : Option String) (p : Params) (first : String)
    (rest : List String) : Prop :=
  ∃ m ∈ (assign kind p (Movement.hold : Movement α) (first :: rest)).lookup first,
    ∀ e ∈ assign kind p (Movement.hold : Movement α) (first :: rest),
      e.2.differsSpatially m = false

instance (kind : Option String) (p : Params) (first : String) (rest : List String) :
    Decidable (AllAlike α kind p first rest) :=
  inferInstanceAs (Decidable (∃ m ∈ List.lookup first
    (assign kind p (Movement.hold : Movement α) (first :: rest)), _))

section All

variable [OrderLaws α] [ZeroLaws α] [MonotoneLaws α] [StageLaws α] [FormationLaws α]

theorem alike_wash (together : Together α .wash p) {m i j : Nat} (hi : i < m) (hj : j < m) :
    (placePreset (washPreset (p.text "spacing" "medium")) Movement.hold
      (.ofIndex m i)).differsSpatially
        (placePreset (washPreset (p.text "spacing" "medium")) (Movement.hold : Movement α)
          (.ofIndex m j)) = false := by
  by_cases tight : p.text "spacing" "medium" = "tight"
  · have flat : washPreset (p.text "spacing" "medium") = ([0, 0, 0, 0] : List α) := by
      rw [tight]
      rfl
    have trials := together
    unfold Together at trials
    simp only [place, flat] at trials
    rw [flat]
    exact alike_of_framed framed_flat trials hi hj
  · have uneven : washPreset (p.text "spacing" "medium") ∈ unevenTables α := by
      unfold washPreset
      split
      · rename_i text
        exact absurd text tight
      · exact .tail _ (.tail _ (.tail _ (.tail _ (.tail _ (.head _)))))
      · exact .tail _ (.tail _ (.tail _ (.tail _ (.head _))))
    exact absurd together (not_together_of_uneven uneven fun _ => rfl)

/-- **In a selection that trials speak for no head differs from the first** if none does in a
trial. -/
theorem alike (together : Together α f p) (turns : f = .tunnel → QuarterTurns α) {first : String}
    {rest : List String} (judged : f.Judged p first rest) {i j : Nat} (hi : i < rest.length + 1)
    (hj : (first :: rest)[j]? = some first) :
    (f.place p (seed p (first :: rest)) Movement.hold
      (.ofIndex (rest.length + 1) i)).differsSpatially
        (f.place p (seed p (first :: rest)) (Movement.hold : Movement α)
          (.ofIndex (rest.length + 1) j)) = false := by
  obtain ⟨inside, -⟩ := List.getElem?_eq_some_iff.mp hj
  have leftmost (once : first ∉ rest) : j = 0 := by
    cases j with
    | zero => rfl
    | succ j =>
      rw [List.getElem?_cons_succ] at hj
      exact absurd (List.mem_of_getElem? hj) once
  cases f with
  | mirror => exact alike_of_framed (framed_mirror p) together hi inside
  | fan => exact alike_of_framed (framed_fan p) together hi inside
  | chevron => exact alike_of_framed (framed_chevron p) together hi inside
  | rainbow => exact alike_of_framed (framed_rainbow p) together hi inside
  | spotlight => exact alike_of_framed (framed_spotlight p) together hi inside
  | cross => exact alike_of_framed (framed_cross p) together hi inside
  | centerOut => exact alike_of_framed (framed_centerOut p) together hi inside
  | outsideIn => exact alike_of_framed (framed_outsideIn p) together hi inside
  | wash => exact alike_wash together hi inside
  | audience => exact absurd together (not_together_of_uneven (audiencePreset_mem _) fun _ => rfl)
  | alternating => exact absurd together not_together_alternating
  | wave => exact alike_wave together judged hi inside
  | tunnel =>
    rw [leftmost judged]
    exact alike_tunnel (turns rfl) together _ _
  | scatter =>
    obtain ⟨once, alone | ⟨few, seeded⟩⟩ := judged
    · subst alone
      obtain rfl := Nat.lt_one_iff.mp hi
      obtain rfl := leftmost once
      exact Movement.not_differsSpatially_self _
    · rw [leftmost once]
      cases i with
      | zero => exact Movement.not_differsSpatially_self _
      | succ i =>
        rw [seed_eq_seed seeded (first :: rest) (trialIds 4)]
        exact together 4 (by decide) i (by omega)

/-- **What no trial sets apart, no selection that trials speak for does**: everyone who is selected
has a movement, and none differs from that of the first. -/
theorem allAlike_of_not_spreads {kind : Option String} (together : spreads α kind p = false)
    (turns : kind.bind ofName? = some .tunnel → QuarterTurns α) (first : String)
    (rest : List String) (judged : ∀ f, kind.bind ofName? = some f → f.Judged p first rest) :
    (∀ id ∈ first :: rest, ∃ m,
      (assign kind p (Movement.hold : Movement α) (first :: rest)).lookup id = some m) ∧
      AllAlike α kind p first rest := by
  have served : ∀ id ∈ first :: rest, ∃ m,
      (assign kind p (Movement.hold : Movement α) (first :: rest)).lookup id = some m :=
    fun _ named => exists_lookup_assign p Movement.hold kind named
  obtain ⟨m, found⟩ := served first List.mem_cons_self
  refine ⟨served, m, found, fun e he => ?_⟩
  have listed := Keyed.mem_of_lookup found
  cases known : kind.bind ofName? with
  | none =>
    rw [eq_base_of_mem_assign p _ known he, ← eq_base_of_mem_assign p _ known listed]
    exact Movement.not_differsSpatially_self m
  | some f =>
    obtain ⟨i, id, placed⟩ := exists_index_of_mem_assign p _ known he
    obtain ⟨j, id', placed'⟩ := exists_index_of_mem_assign p _ known listed
    rw [placed, show m = _ from placed']
    exact alike (together_of_spreads known together) (fun tunnel => turns (tunnel ▸ known))
      (judged f known) (List.getElem?_eq_some_iff.mp id).1 id'

end All

end Formation

theorem ExactReading.parabola_mem (x : ℚ) : -1 ≤ parabola x ∧ parabola x ≤ 1 := by
  unfold parabola
  dsimp only
  generalize x / (710 / 113) = turns
  have below := Int.floor_le turns
  have above := Int.lt_floor_add_one turns
  split
  · constructor <;> nlinarith [sq_nonneg (4 * (turns - ⌊turns⌋) - 1)]
  · constructor <;> nlinarith [sq_nonneg (4 * (turns - ⌊turns⌋) - 3)]

/-- The sine of two parabolas has its quarter turns. -/
theorem ExactReading.quarterTurns_parabolic :
    letI := ExactReading.parabolic
    Scalar.QuarterTurns ℚ := by
  let reading := ExactReading.parabolic
  exact {
    sin_mem := fun x _ => ExactReading.parabola_mem x
    cos_mem := fun x _ => ExactReading.parabola_mem _
    sin_zero := by decide +kernel
    cos_zero := by decide +kernel
    sin_quarter := by decide +kernel
    cos_half := by decide +kernel
    sin_three_quarters := by decide +kernel }

namespace Formation

/-- Five heads on a circle so small that four of them are as good as together. -/
theorem allAlike_of_small_circle :
    letI := ExactReading.parabolic
    let p : Params := [("radius", .number (some (.double 0.000008))),
      ("pan_spread_deg", .number (some (.whole 0)))]
    spreads ℚ (some "tunnel_cone") p = false ∧
      (∀ id ∈ ["A", "B", "C", "D", "E", "B"], ∃ m,
        (assign (some "tunnel_cone") p (Movement.hold : Movement ℚ)
          ["A", "B", "C", "D", "E", "B"]).lookup id = some m) ∧
      AllAlike ℚ (some "tunnel_cone") p "A" ["B", "C", "D", "E", "B"] := by
  intro p
  let reading := ExactReading.parabolic
  have together : spreads ℚ (some "tunnel_cone") p = false := by decide +kernel
  refine ⟨together, allAlike_of_not_spreads together
    (fun _ => ExactReading.quarterTurns_parabolic) _ _ fun f known => ?_⟩
  obtain rfl : Formation.tunnel = f := Option.some_inj.mp (Eq.trans (by decide) known)
  exact show "A" ∉ ["B", "C", "D", "E", "B"] by decide

/-- Ids in order are hashed as they stand. -/
theorem seedOf_of_inOrder {ids : List String}
    (h : ids.Pairwise fun a b => (!decide (b < a)) = true) :
    seedOf ids = (ids.flatMap fun id => id.toUTF8.toList ++ [0]).foldl
      (fun hash b => (hash ^^^ b.toUInt64) * 0x100000001b3) 0xcbf29ce484222325 := by
  unfold seedOf
  rw [List.mergeSort_of_pairwise h]

/-- A scatter that is not told its seed, too narrow for trials to see. -/
def narrowScatter : Params := [("max_pan_deg", .number (some (.double 0.00006))),
  ("max_tilt_deg", .number (some (.whole 0)))]

theorem seed_narrowScatter : seed narrowScatter (trialIds 2) = 9143476770937982526 ∧
    seed narrowScatter (trialIds 3) = 15316817695945707794 ∧
    seed narrowScatter (trialIds 4) = 17153921093286817105 ∧
    seed narrowScatter ["D", "N"] = 14751677416356792799 := by
  have hashed (ids : List String) : seed narrowScatter ids = seedOf ids := rfl
  simp only [hashed]
  refine ⟨?_, ?_, ?_, ?_⟩ <;>
  · rw [seedOf_of_inOrder (by decide +kernel)]
    decide +kernel

/-- Trials set nothing apart, and yet some head differs from the first. -/
def Missed (α : Type) [Scalar α] (f : Formation) (p : Params) (first : String)
    (rest : List String) : Prop :=
  spreads α (some f.name) p = false ∧ ¬AllAlike α (some f.name) p first rest

theorem missed_narrowScatter :
    letI := ExactReading.parabolic
    Missed ℚ .scatter narrowScatter "D" ["N"] := by
  let reading := ExactReading.parabolic
  obtain ⟨two, three, four, selected⟩ := seed_narrowScatter
  have known : (some Formation.scatter.name).bind ofName? = some .scatter := by decide
  constructor
  · unfold spreads
    rw [known]
    simp only [trialSizes, List.any_cons, List.any_nil, distribute, two, three, four]
    decide +kernel
  · unfold AllAlike assign
    rw [known]
    simp only [distribute, selected]
    decide +kernel

/-- **Trials do not speak for more**: a wave for more than four heads, a circle whose first head is
named again, and a scatter for more than four heads, with its first head named again or without a
seed. -/
theorem exists_missed : ∃ _ : ExactReading,
    Missed ℚ .wave [("phase_spacing", .number (some (.double 0.00003)))] "A"
        ["B", "C", "D", "E"] ∧
      Missed ℚ .tunnel [("radius", .number (some (.double 0.000008))),
        ("pan_spread_deg", .number (some (.whole 0)))] "A" ["B", "C", "A"] ∧
      Missed ℚ .scatter [("max_pan_deg", .number (some (.double 0.0003))),
        ("max_tilt_deg", .number (some (.whole 0))), ("seed", .number (some (.whole 0)))] "A"
        ["B", "C", "D", "E"] ∧
      Missed ℚ .scatter [("max_pan_deg", .number (some (.double 0.0003))),
        ("max_tilt_deg", .number (some (.whole 0))), ("seed", .number (some (.whole 0)))] "A"
        ["B", "C", "A"] ∧
      Missed ℚ .scatter narrowScatter "D" ["N"] := by
  refine ⟨.parabolic, ?_, ?_, ?_, ?_, missed_narrowScatter⟩ <;>
  · unfold Missed
    decide +kernel

end Formation

end MovingLight
