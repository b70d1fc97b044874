import MovingLight.Channel.Shift
import MovingLight.Pattern.Movement
import MovingLight.Proofs.Curve.Smooth
import MovingLight.Proofs.Window
import MovingLight.Timeline.Blend
import MovingLight.Transition

/-!
# Channels in a window — no step leaves it

`ChannelValue.KeepsTo s` says what a channel may be told so that it never leaves
an interval `s`: to hold a level in it, to swing between two levels in it, or to
run along points in it. Every way the program has of making a channel or of
changing one keeps to the window it started in, one lemma for each:

* a movement of a pattern (`keepsTo_onAxis`) and a straight run between two values
  (`keepsTo_run`) make channels;
* cutting short, shifting, drawing and blending change them.

Two of these do not limit what they compute. A blend takes each sample a fraction
of the way to the value at the boundary. An inversion reflects a curve about the
middle of its own values, which need not be the middle of the window; what it
reflects stays between the smallest and the largest of these values, and so in
any interval that they lie in. Limiting to the levels of a byte afterwards changes
nothing then.
-/

namespace MovingLight

/-- **A channel keeps to an interval**: the level it holds, the two levels it swings between, or
the points it runs along lie in it. -/
def ChannelValue.KeepsTo (s : Set ℚ) : ChannelValue ℚ → Prop
  | hold level => (level.toNat : ℚ) ∈ s
  | wave w => w.min ∈ s ∧ w.max ∈ s
  | curve c => c.Within s

variable [ExactReading]

/-! ## Waves and curves -/

theorem Wave.sampleWithPhase_mem_uIcc (w : Wave ℚ) (t phaseDeg : ℚ) :
    w.sampleWithPhase t phaseDeg ∈ Set.uIcc w.min w.max := by
  have fraction := Scalar.clampUnit_mem
    (w.height (Scalar.clampUnit t) (w.cycles * Scalar.clampUnit t + w.p1 / 100 + phaseDeg / 360))
  have between := Scalar.between_mem_uIcc w.min w.max fraction
  unfold Scalar.between at between
  rw [mul_comm] at between
  exact between

namespace Curve.Within

variable {s : Set ℚ} {c : Curve ℚ}

omit [ExactReading] in
/-- A change of each point that keeps its value in the interval keeps the curve there. -/
theorem map (h : c.Within s) {f : CurvePoint ℚ → CurvePoint ℚ}
    (hf : ∀ p, p.value ∈ s → (f p).value ∈ s) : Curve.Within s (List.map f c) := by
  constructor
  · exact fun empty => h.nonempty (List.map_eq_nil_iff.mp empty)
  · intro p hp
    obtain ⟨o, ho, rfl⟩ := List.mem_map.mp hp
    exact hf o (h.values o ho)

/-- The middle of a curve lies halfway between two of its values, and all its values lie between
these two. -/
theorem exists_middle (h : c.Within s) : ∃ lo hi, lo ∈ s ∧ hi ∈ s ∧
    c.Within (Set.Icc lo hi) ∧ c.middle = (lo + hi) / 2 := by
  have values_ne : c.map (·.value) ≠ [] := fun empty => h.nonempty (List.map_eq_nil_iff.mp empty)
  obtain ⟨lo, hlo⟩ := Option.ne_none_iff_exists'.mp (mt List.min?_eq_none_iff.mp values_ne)
  obtain ⟨hi, hhi⟩ := Option.ne_none_iff_exists'.mp (mt List.max?_eq_none_iff.mp values_ne)
  obtain ⟨lo_mem, lo_le⟩ := List.min?_eq_some_iff.mp hlo
  obtain ⟨hi_mem, le_hi⟩ := List.max?_eq_some_iff.mp hhi
  obtain ⟨p, hp, rfl⟩ := List.mem_map.mp lo_mem
  obtain ⟨q, hq, rfl⟩ := List.mem_map.mp hi_mem
  refine ⟨p.value, q.value, h.values p hp, h.values q hq, ⟨h.nonempty, fun o ho => ?_⟩, ?_⟩
  · exact ⟨lo_le _ (List.mem_map_of_mem ho), le_hi _ (List.mem_map_of_mem ho)⟩
  · show ((List.foldl Scalar.runningMin none _).getD 0 +
      (List.foldl Scalar.runningMax none _).getD 0) / 2 = _
    rw [Scalar.foldl_runningMin, Scalar.foldl_runningMax, hlo, hhi]
    rfl

end Curve.Within

namespace ChannelValue

variable {s : Set ℚ} [s.OrdConnected] {window : Window} {v : ChannelValue ℚ}

/-- **A channel that keeps to an interval has its value there at every time.** -/
theorem KeepsTo.valueAt_mem (h : v.KeepsTo s) (t : ℚ) : v.valueAt t ∈ s := by
  cases v with
  | hold level => exact h
  | wave w => exact Set.OrdConnected.uIcc_subset ‹_› h.1 h.2 (w.sampleWithPhase_mem_uIcc t 0)
  | curve c => exact Curve.Within.valueAt_mem h t

/-! ## Making channels -/

theorem keepsTo_level {x : ℚ} (h : x ∈ window.range) :
    (hold (Dmx.level x)).KeepsTo window.range := Dmx.level_mem h

omit [s.OrdConnected] in
theorem keepsTo_ramp {x y : ℚ} (hx : x ∈ s) (hy : y ∈ s) : (wave (Wave.ramp x y)).KeepsTo s :=
  ⟨Scalar.lesser_mem hx hy, Scalar.greater_mem hx hy⟩

omit [s.OrdConnected] in
theorem keepsTo_periodic (shape : WaveShape) {x y : ℚ} (hx : x ∈ s) (hy : y ∈ s) (cycles : ℚ) :
    (wave (Wave.periodic shape x y cycles)).KeepsTo s :=
  ⟨Scalar.lesser_mem hx hy, Scalar.greater_mem hx hy⟩

/-- **A movement keeps to the window of its axis**, whatever it is and wherever it is centred. -/
theorem keepsTo_onAxis (m : Movement ℚ) (role : AxisRole) (center : ℚ) (window : Window) :
    (m.onAxis role center window).KeepsTo window.range := by
  have still := keepsTo_level (window.clamp_mem center)
  unfold Movement.onAxis
  dsimp only
  split
  · exact still
  · split
    · exact still
    · exact still
    · exact keepsTo_ramp (window.clamp_mem _) (window.clamp_mem _)
    · split
      · exact still
      · exact ⟨Scalar.lesser_mem (window.clamp_mem _) (window.clamp_mem _),
          Scalar.greater_mem (window.clamp_mem _) (window.clamp_mem _)⟩

/-- **A straight run between two values of a window keeps to it.** -/
theorem keepsTo_run {x y : ℚ} (hx : x ∈ window.range) (hy : y ∈ window.range) :
    (Passage.run x y).KeepsTo window.range := by
  unfold Passage.run
  split
  · exact keepsTo_level hy
  · rw [Scalar.clamp_of_mem (window.range_subset hx), Scalar.clamp_of_mem (window.range_subset hy)]
    exact Curve.within_linear hx hy

/-! ## Changing channels -/

/-- **Cutting a channel short keeps it in its interval.** -/
theorem KeepsTo.truncated (h : v.KeepsTo s) (ratio : ℚ) (count : Nat) :
    (v.truncated ratio count).KeepsTo s := by
  unfold ChannelValue.truncated
  dsimp only
  split
  · exact h
  · cases v with
    | hold level => exact h
    | wave w => exact Curve.within_sampled count fun t => KeepsTo.valueAt_mem (v := wave w) h _
    | curve c => exact Curve.Within.truncated h _

/-- A reflected sample of a window stays between the two values it is reflected between. -/
theorem reflected_mem {lo hi x : ℚ} (hlo : lo ∈ window.range) (hhi : hi ∈ window.range)
    (hx : x ∈ Set.uIcc lo hi) : reflected ((lo + hi) / 2) x ∈ window.range := by
  have mirrored : 2 * ((lo + hi) / 2) - x ∈ Set.uIcc lo hi := by
    rw [Set.mem_uIcc] at hx ⊢
    rcases hx with hx | hx
    · left
      constructor <;> linarith
    · right
      constructor <;> linarith
  have inside := Set.OrdConnected.uIcc_subset inferInstance hlo hhi mirrored
  unfold reflected
  rw [Scalar.clamp_of_mem (window.range_subset inside)]
  exact inside

/-- **Phase and inversion keep a channel in its window.** -/
theorem KeepsTo.shifted (h : v.KeepsTo window.range) (phaseDeg : ℚ) (invert : Bool)
    (count : Nat) : (v.shifted phaseDeg invert count).KeepsTo window.range := by
  unfold ChannelValue.shifted
  dsimp only
  split
  · exact h
  · cases v with
    | hold level => exact h
    | wave w =>
      refine Curve.within_sampled count fun t => ?_
      have swing := w.sampleWithPhase_mem_uIcc t (Scalar.emod phaseDeg 360)
      split
      · exact reflected_mem h.1 h.2 swing
      · exact Set.OrdConnected.uIcc_subset inferInstance h.1 h.2 swing
    | curve c =>
      refine Curve.within_sampled count fun t => ?_
      split
      · -- reflected about the middle of its own values, the curve stays between them
        obtain ⟨lo, hi, hlo, hhi, between, middle⟩ := Curve.Within.exists_middle h
        rw [middle]
        refine reflected_mem hlo hhi ?_
        exact Set.Icc_subset_uIcc (between.valueAt_mem _)
      · exact Curve.Within.valueAt_mem h _

/-- **Drawing a channel keeps it in its interval.** A channel that keeps to one has a point to be
drawn through, so it is never left dark. -/
theorem KeepsTo.drawn (h : v.KeepsTo s) (count : Nat) : (v.drawn count).KeepsTo s := by
  cases v with
  | hold level => exact h
  | wave w => exact h
  | curve c =>
    obtain ⟨d, drawn_eq, within⟩ := Curve.Within.smooth? h count
    show Curve.Within s ((c.smooth? count).getD _)
    rw [drawn_eq]
    exact within

omit [s.OrdConnected] in
theorem KeepsTo.points? (h : v.KeepsTo s) {count : Nat} {c : Curve ℚ}
    (hc : v.points? count = some c) : c.Within s := by
  cases v with
  | hold level =>
    cases hc
    exact Curve.within_flat count h
  | wave w => cases hc
  | curve d =>
    cases hc
    exact h

/-- A sample is pulled a fraction of the way to the anchor. -/
theorem pulled_mem (side : Side) (durationMs blendMs : ℚ) {anchor : ℚ} {p : CurvePoint ℚ}
    (ha : anchor ∈ s) (hp : p.value ∈ s) : (p.pulled side durationMs blendMs anchor).value ∈ s := by
  unfold CurvePoint.pulled
  dsimp only
  split
  · exact hp
  · rename_i pulls
    have fraction : Scalar.lesser (side.weight durationMs blendMs (p.t * durationMs)) 1 ∈
        Set.Icc (0 : ℚ) 1 := by
      rw [Scalar.lesser_eq_min]
      exact ⟨le_min (not_le.mp pulls).le zero_le_one, min_le_right _ _⟩
    have between := Scalar.between_mem hp ha fraction
    unfold Scalar.between at between
    convert between using 1
    ring

/-- **Blending two channels keeps both in their interval.** -/
theorem KeepsTo.blended {current next : ChannelValue ℚ} (h : current.KeepsTo s)
    (h' : next.KeepsTo s) (currentMs nextMs : Nat) (blendMs : ℚ) (count : Nat) :
    (current.blended next currentMs nextMs blendMs count).1.KeepsTo s ∧
      (current.blended next currentMs nextMs blendMs count).2.KeepsTo s := by
  unfold ChannelValue.blended
  refine iteInduction
    (motive := fun pair : ChannelValue ℚ × ChannelValue ℚ => pair.1.KeepsTo s ∧ pair.2.KeepsTo s)
    (fun _ => ⟨h, h'⟩) fun _ => ?_
  split
  · rename_i tail head htail hhead
    exact ⟨(h.points? htail).map fun p hp => pulled_mem _ _ _ (h'.valueAt_mem 0) hp,
      (h'.points? hhead).map fun p hp => pulled_mem _ _ _ (h.valueAt_mem 1) hp⟩
  · exact ⟨h, h'⟩

end ChannelValue

end MovingLight
