import MovingLight.Proofs.Segment
import MovingLight.Proofs.Show
import MovingLight.Proofs.Timeline.Window

/-!
# Shows — no head is driven out of its windows

Whatever a plan asks for, pan and tilt of every effect of a finished show stay in
the windows of the head they are for (`Plan.render_obeys`). The reason is the same
at every stage: what is made is limited to the window of its axis, and what is
changed stays where it was.

Two things have to be seen about the stages in between. Channels may be shared by
heads of one calibration, and a calibration has the windows in it, so a head that
is given the channels of another is given channels for its own windows. And effects
are divided among heads by id, where the first head of an id gets all of them; it is
also the head they were rendered for (`Plan.find?_of_mem_divided`).
-/

namespace MovingLight

theorem ChannelSet.Obeys.congr {f g : Fixture ℚ} {c : ChannelSet ℚ} (h : c.Obeys g)
    (calibration : g.calibration = f.calibration) : c.Obeys f := by
  have pan : g.pan = f.pan := congrArg Calibration.pan calibration
  have tilt : g.tilt = f.tilt := congrArg Calibration.tilt calibration
  exact ⟨pan ▸ h.pan, tilt ▸ h.tilt⟩

/-- **Among the heads of an id the first gets all effects of that id**, and effects of no other. -/
theorem Plan.find?_of_mem_divided {α : Type} {effects own : List (Effect α)}
    {heads : List (Fixture α)} {f : Fixture α} (h : (f, own) ∈ divided effects heads) :
    ∀ e ∈ own, e ∈ effects ∧ heads.find? (·.id == e.fixtureId) = some f := by
  induction heads generalizing effects with
  | nil => exact absurd h List.not_mem_nil
  | cons g rest ih =>
    rw [divided] at h
    intro e he
    rcases List.mem_cons.mp h with heq | h
    · obtain ⟨rfl, rfl⟩ := Prod.mk.inj heq
      obtain ⟨mem, owns⟩ := List.mem_filter.mp he
      exact ⟨mem, by rw [List.find?_cons, eq_of_beq owns, beq_self_eq_true]⟩
    · -- what is divided among the rest is what `g` does not own
      obtain ⟨mem, found⟩ := ih h e he
      obtain ⟨mem, other⟩ := List.mem_filter.mp mem
      rw [Bool.not_eq_true', beq_eq_false_iff_ne] at other
      exact ⟨mem, by rw [List.find?_cons, beq_false_of_ne (Ne.symm other), found]⟩

section Exact

variable [ExactReading]

/-- What is drawn for one axis keeps to its range, with or without a curve of its own. -/
theorem Movement.onAxis_keepsTo_range (m : Movement ℚ) (role : AxisRole) (center : ℚ) (a : Axis)
    (own invert : Bool) (phaseDeg : ℚ) (count : Nat) :
    (if own then (m.onAxis role center a.window).shifted phaseDeg invert count
      else m.onAxis role center a.window).KeepsTo a.range := by
  have drawn := ChannelValue.keepsTo_onAxis m role center a.window
  rw [← a.window_range]
  split
  · exact drawn.shifted phaseDeg invert count
  · exact drawn

/-- The channels drawn for a head stay in its windows. -/
theorem Segment.channels_obey (settings : Settings ℚ) (step : Step ℚ) (look : Appearance ℚ)
    (own : Bool) (f : Fixture ℚ) (m : Movement ℚ) :
    (channels settings step look own f m).Obeys f :=
  ⟨m.onAxis_keepsTo_range _ _ _ _ _ _ _, m.onAxis_keepsTo_range _ _ _ _ _ _ _⟩

namespace Plan

variable {p : Plan ℚ} {rig : Rig ℚ} {settings : Settings ℚ} {s : Show ℚ}

theorem sequenced_obey : ∀ e ∈ p.sequenced rig settings,
    ∃ f, rig.get? e.fixtureId = some f ∧ e.channels.Obeys f := by
  intro e he
  obtain ⟨o, ho, rfl⟩ := List.mem_map.mp he
  obtain ⟨⟨sec, steps⟩, -, ho⟩ := List.mem_flatMap.mp ho
  obtain ⟨step, -, ho⟩ := List.mem_flatMap.mp ho
  dsimp only at ho
  split at ho
  · rename_i effects rendered
    -- drawn for `g`, which need not be the head `f` that it is for
    obtain ⟨-, ids, f, g, own, m, -, -, found, calibration, rfl⟩ :=
      Segment.exists_headEffect_of_mem_render rendered ho
    exact ⟨f, found, (Segment.channels_obey settings step _ own g m).congr calibration⟩
  · exact absurd ho List.not_mem_nil

/-- **No head is driven out of its windows.** -/
theorem render_obeys (h : p.render rig settings = .ok s) :
    List.Forall₂ (fun f t => ∀ e ∈ t.effects, e.channels.Obeys f) rig.fixtures s.timelines := by
  obtain ⟨-, -, rfl⟩ := render_eq_ok.mp h
  have each : List.Forall₂ (fun f t => ∀ e ∈ t.effects, e.channels.Obeys f)
      ((divided (p.sequenced rig settings) rig.fixtures).map Prod.fst)
      ((divided (p.sequenced rig settings) rig.fixtures).map fun d =>
        HeadTimeline.ofOwn settings p.songDurationMs d.1 d.2) := by
    rw [List.forall₂_map_left_iff, List.forall₂_map_right_iff, List.forall₂_same]
    rintro ⟨f, own⟩ hd
    refine Timeline.finish_obeys settings (Timeline.fill_obeys settings (fun e he => ?_) _)
    obtain ⟨mem, found⟩ := find?_of_mem_divided hd e he
    obtain ⟨g, found', obeys⟩ := sequenced_obey e mem
    obtain rfl := Option.some.inj (found'.symm.trans found)
    exact obeys
  rwa [map_fst_divided] at each

end Plan

end Exact

/-- Heads that circle one after another, the first of them in narrow windows, one of which runs
backwards. -/
theorem Plan.render_obeys_of_narrow_windows :
    letI := ExactReading.parabolic
    let circle : Instruction ℚ := ⟨"ALL", {
      movement := some ⟨"circle", "dramatic", none, none⟩
      formation := some ⟨"wave_lr", []⟩ }⟩
    let p : Plan ℚ := {
      songMs := some 9000
      sections := [⟨"verse", 1000, 4000, none, none, none, [circle]⟩]
      templates := []
      appearances := [] }
    let rig : Rig ℚ := .ofFixtures [
      { id := "MH1", pan := ⟨540, 128, 100, 140⟩, tilt := ⟨270, 128, 150, 60⟩ },
      { id := "MH2" }]
    ∃ s, p.render rig .standard = .ok s ∧
      List.Forall₂ (fun f t => ∀ e ∈ t.effects, e.channels.Obeys f) rig.fixtures s.timelines := by
  intro circle p rig
  let reading := ExactReading.parabolic
  obtain ⟨s, hs⟩ : ∃ s, p.render rig .standard = .ok s := ⟨_, rfl⟩
  exact ⟨s, hs, render_obeys hs⟩

end MovingLight
