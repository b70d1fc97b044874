import MovingLight.Proofs.Scalar.Level
import MovingLight.Proofs.Timeline.Fill

/-!
# Darkness — no move in the light, no light at rest

A head that fades through black stays where it is until its light is out, and stays where
it is going before its light comes on (`Passage.fadeThroughBlack_dark`). Each of its three
phases may be missing, so neither half of this may rest on a neighbour. It does not: whatever
the phase that ends at the old position is, it runs down to a dimmer of nothing
(`Passage.run_zero_endValue`), and whatever the first at the new position is, it starts from
one (`Passage.zero_run_startValue`).

A head at rest is dark throughout. It rests before its first effect, after its last, and in
the middle phase of a way with three of them. All of these run from an anchor to an anchor
without light (`Anchor.Unlit`), and such a run holds what it is given
(`Passage.channels_dark`).

Both are statements about levels and hold in either reading of a scalar: they need no more
than `Scalar.LevelLaws` says.
-/

namespace MovingLight

variable {α : Type} [Scalar α]

/-- **A head stays where an anchor has it**: pan and tilt hold one level each. -/
structure ChannelSet.StaysAt (a : Anchor α) (c : ChannelSet α) : Prop where
  pan : c.pan = .hold (Dmx.level a.pan)
  tilt : c.tilt = .hold (Dmx.level a.tilt)

/-- **A head is dark**: its dimmer is off, its shutter closed where it has one, and nothing is said of
a colour or a gobo. -/
structure ChannelSet.Dark (shutterClosed : UInt8) (c : ChannelSet α) : Prop where
  dimmer : c.dimmer = .hold 0
  shutter : ∀ v ∈ c.shutter, v = .hold shutterClosed
  color : c.color = none
  gobo : c.gobo = none

/-- **An anchor without light.** -/
structure Anchor.Unlit (shutterClosed : UInt8) (a : Anchor α) : Prop where
  dimmer : a.dimmer = 0
  shutter : ∀ v ∈ a.shutter, v = (shutterClosed.toNat : α)
  color : a.color = none
  gobo : a.gobo = none

/-- **The effect is one of a head at rest**: it fills a gap before the first effect or after the
last, or it is the middle phase of a way across. -/
def Effect.Rests (e : Effect α) : Prop :=
  e.boundary.gapKind = some .start ∨ e.boundary.gapKind = some .finish ∨
    e.label = "gap_fill:hold" ∨ e.label = "gap_fill:blackout"

/-! ## Anchors without light -/

theorem Anchor.unlit_dark (a : Anchor α) (shutterClosed : UInt8) :
    (a.dark shutterClosed).Unlit shutterClosed := by
  refine ⟨rfl, ?_, rfl, rfl⟩
  intro v hv
  obtain ⟨-, -, rfl⟩ := Option.mem_map.mp hv
  rfl

theorem Fixture.unlit_darkHome (f : Fixture α) (settings : Settings α) :
    (f.darkHome settings).Unlit settings.shutterClosed := by
  refine ⟨rfl, ?_, rfl, rfl⟩
  intro v hv
  obtain ⟨-, -, rfl⟩ := Option.mem_map.mp hv
  rfl

namespace Passage

open Scalar (OrderLaws LevelLaws)

variable [LevelLaws α]

/-! ## Straight runs -/

/-- A run that goes nowhere holds its level. -/
theorem run_self {x : α} (h : 0 ≤ x) (h' : x ≤ 255) : run x x = .hold (Dmx.level x) := by
  unfold run
  rw [LevelLaws.sub_self x h h', if_pos LevelLaws.abs_zero_lt_half]

/-- A shutter that is at one level on either side, where there is one, holds it. -/
theorem eq_hold_of_mem_shutterRun {x : α} (h : 0 ≤ x) (h' : x ≤ 255) {source target : Option α}
    (first : ∀ y ∈ source, y = x) (second : ∀ y ∈ target, y = x) :
    ∀ v ∈ shutterRun source target, v = .hold (Dmx.level x) := by
  intro v hv
  cases source with
  | none =>
    cases target with
    | none => cases hv
    | some y =>
      cases hv
      rw [second y rfl]
  | some y =>
    cases target with
    | none =>
      cases hv
      rw [first y rfl]
    | some z =>
      cases hv
      rw [first y rfl, second z rfl, run_self h h']

/-- Between two anchors of one position a head stays. -/
theorem channels_staysAt {a source target : Anchor α} (levels : a.Levels)
    (pan : source.pan = a.pan ∧ target.pan = a.pan)
    (tilt : source.tilt = a.tilt ∧ target.tilt = a.tilt) :
    (channels source target).StaysAt a := by
  constructor
  · show run source.pan target.pan = _
    rw [pan.1, pan.2, run_self levels.pan.1 levels.pan.2]
  · show run source.tilt target.tilt = _
    rw [tilt.1, tilt.2, run_self levels.tilt.1 levels.tilt.2]

variable [OrderLaws α]

/-- **A run down to nothing ends there**, also where it is too short to run. -/
theorem run_zero_endValue {x : α} (h : 0 ≤ x) (h' : x ≤ 255) : (run x 0).endValue = 0 := by
  unfold run ChannelValue.endValue
  by_cases close : Scalar.abs (x - 0) < 0.5
  · rw [if_pos close, Dmx.level_zero]
    exact ChannelValue.valueAt_hold_zero 1
  · rw [if_neg close, LevelLaws.clamp_zero]
    obtain ⟨above, below⟩ := Scalar.clamp_level h h'
    exact LevelLaws.linear_end _ above below

/-- **A run up from nothing starts there**, also where it is too short to run. -/
theorem zero_run_startValue {x : α} (h : 0 ≤ x) (h' : x ≤ 255) : (run 0 x).startValue = 0 := by
  unfold run ChannelValue.startValue
  by_cases close : Scalar.abs (0 - x) < 0.5
  · rw [if_pos close, LevelLaws.level_faint x h h' close]
    exact ChannelValue.valueAt_hold_zero 0
  · rw [if_neg close, LevelLaws.clamp_zero]
    exact Curve.valueAt_linear_zero Scalar.zero_le_zero

/-- **Between two anchors without light a head is dark.** -/
theorem channels_dark {shutterClosed : UInt8} {source target : Anchor α}
    (first : source.Unlit shutterClosed) (second : target.Unlit shutterClosed) :
    (channels source target).Dark shutterClosed := by
  obtain ⟨above, below⟩ := Scalar.byte_mem (α := α) shutterClosed
  refine ⟨?_, ?_, ?_, ?_⟩
  · show run source.dimmer target.dimmer = _
    rw [first.dimmer, second.dimmer, run_self Scalar.zero_le_zero OrderLaws.zero_le_full,
      Dmx.level_zero]
  · show ∀ v ∈ shutterRun source.shutter target.shutter, v = _
    have held := eq_hold_of_mem_shutterRun above below first.shutter second.shutter
    rwa [LevelLaws.level_byte] at held
  · show source.color.or target.color = none
    rw [first.color, second.color]
    rfl
  · show (source.gobo.or target.gobo).map _ = none
    rw [first.gobo, second.gobo]
    rfl

/-! ## Passages -/

variable {p : Passage α}

/-- **A head that fades through black moves in the dark**: what it does falls into a part at the
old position, whose last effect ends without light, and a part at the new position, whose first
effect starts without light. -/
theorem fadeThroughBlack_dark (source : p.source.Levels) (target : p.target.Levels) :
    ∃ outgoing incoming, p.effects .fadeThroughBlack = outgoing ++ incoming ∧
      (∀ e ∈ outgoing, e.channels.StaysAt p.source ∧ e.channels.dimmer.endValue = 0) ∧
      (∀ e ∈ incoming, e.channels.StaysAt p.target ∧ e.channels.dimmer.startValue = 0) := by
  refine ⟨_, _, List.append_assoc _ _ _, ?_, ?_⟩
  · intro e he
    obtain ⟨-, shows⟩ := of_mem_phase? he
    rw [shows]
    exact ⟨channels_staysAt source ⟨rfl, rfl⟩ ⟨rfl, rfl⟩,
      run_zero_endValue source.dimmer.1 source.dimmer.2⟩
  · intro e he
    rcases List.mem_append.mp he with he | he
    · obtain ⟨-, shows⟩ := of_mem_phase? he
      have dark := p.target.unlit_dark p.shutterClosed
      rw [shows]
      refine ⟨channels_staysAt target ⟨rfl, rfl⟩ ⟨rfl, rfl⟩, ?_⟩
      rw [(channels_dark dark dark).dimmer]
      exact ChannelValue.valueAt_hold_zero 0
    · obtain ⟨-, shows⟩ := of_mem_phase? he
      rw [shows]
      exact ⟨channels_staysAt target ⟨rfl, rfl⟩ ⟨rfl, rfl⟩,
        zero_run_startValue target.dimmer.1 target.dimmer.2⟩

/-- **The middle phase of a way across is dark**, where the resting pose is without light. -/
theorem dark_of_mem_effects (home : p.home.Unlit p.shutterClosed) {mode : TransitionMode}
    {e : Effect α} (he : e ∈ p.effects mode)
    (middle : e.label = "gap_fill:hold" ∨ e.label = "gap_fill:blackout") :
    e.channels.Dark p.shutterClosed := by
  -- the label tells the phase
  cases mode with
  | snap => exact absurd he List.not_mem_nil
  | crossfade =>
    rw [(of_mem_phase? he).1] at middle
    exact absurd middle (by decide)
  | fadeThroughBlack =>
    simp only [effects, fadeThroughBlack, List.mem_append] at he
    rcases he with (he | he) | he
    · rw [(of_mem_phase? he).1] at middle
      exact absurd middle (by decide)
    · have dark := p.target.unlit_dark p.shutterClosed
      rw [(of_mem_phase? he).2]
      exact channels_dark dark dark
    · rw [(of_mem_phase? he).1] at middle
      exact absurd middle (by decide)
  | gapFill =>
    simp only [effects, byWayOfHome, List.mem_append] at he
    rcases he with (he | he) | he
    · rw [(of_mem_phase? he).1] at middle
      exact absurd middle (by decide)
    · rw [(of_mem_phase? he).2]
      exact channels_dark home home
    · rw [(of_mem_phase? he).1] at middle
      exact absurd middle (by decide)

end Passage

namespace Timeline

variable [Scalar.LevelLaws α] [Scalar.OrderLaws α] {settings : Settings α} {f : Fixture α}
  {songMs : Nat}

/-- **A head at rest is dark.** -/
theorem dark_of_mem_fillGap {laid : List (Effect α)} (turn : InTurn laid) {g : Gap}
    (hg : g ∈ gaps songMs settings.minGapMs laid) {e : Effect α}
    (he : e ∈ fillGap settings f laid g) (rests : e.Rests) :
    e.channels.Dark settings.shutterClosed := by
  have home := f.unlit_darkHome settings
  have marked : e.boundary.gapKind = some g.kind := ((turn.fills hg).marked e he).2
  obtain ⟨mode, source, target, -, crosses⟩ := crossing?_classify (f.darkHome settings) g
    (before? laid g) (after? laid g) settings.largeGapMs
  rw [(gapOf_one_of_mem turn.queue hg).classify_kind Nat.one_pos turn.lasts] at crosses
  rw [fillGap_eq crosses] at he
  rcases crossing?_eq_some crosses with
    ⟨rfl, rfl, rfl, -⟩ | ⟨-, -, -, -, between, -, -⟩
  · -- at either end of the timeline the head goes from home to home
    rw [(Passage.of_mem_phase? he).2]
    exact Passage.channels_dark home home
  · rw [between] at marked
    unfold Effect.Rests at rests
    rw [marked] at rests
    have middle := (rests.resolve_left nofun).resolve_left nofun
    exact Passage.dark_of_mem_effects home he middle

/-- **A head moves in the dark where it fades through black, and rests in the dark.** What such a fade
does falls into a part at the old position, at whose end there is no light, and a part at the new
position, at whose start there is none. And of what fills the gaps of a head, whatever is done at
rest is done without light. -/
theorem dark_moving_and_resting {p : Passage α} (source : p.source.Levels)
    (target : p.target.Levels) :
    (∃ outgoing incoming, p.effects .fadeThroughBlack = outgoing ++ incoming ∧
      (∀ e ∈ outgoing, e.channels.StaysAt p.source ∧ e.channels.dimmer.endValue = 0) ∧
      (∀ e ∈ incoming, e.channels.StaysAt p.target ∧ e.channels.dimmer.startValue = 0)) ∧
    ∀ (settings : Settings α) (f : Fixture α) (songMs : Nat) (effects : List (Effect α)),
      let laid := resolveOverlaps settings.curvePoints effects
      let made := (gaps songMs settings.minGapMs laid).flatMap (fillGap settings f laid)
      (fill settings f songMs effects).Perm (laid ++ made) ∧
        ∀ e ∈ made, e.Rests → e.channels.Dark settings.shutterClosed := by
  refine ⟨Passage.fadeThroughBlack_dark source target, ?_⟩
  intro settings f songMs effects laid made
  constructor
  · rw [fill_eq_sorted]
    exact sorted_perm _
  · intro e he rests
    obtain ⟨g, hg, he⟩ := List.mem_flatMap.mp he
    exact dark_of_mem_fillGap (inTurn_resolveOverlaps _ _) hg he rests

/-- Ten milliseconds without a phase in the middle, from a light of `12.25` to one so faint that it
is no level, and a head that is idle all through a song. -/
theorem dark_moving_and_resting_of_faint_light :
    let p : Passage Float32 := {
      fixtureId := "MH1"
      sectionId := "verse"
      gapKind := none
      startMs := 0
      endMs := 10
      source := ⟨100.5, 20, 12.25, some 200, none, none⟩
      target := ⟨200, 30.75, 0.4, none, none, some 7⟩
      home := ⟨0, 0, 0, none, none, none⟩
      split := ⟨0.4, 0, 0.6⟩
      shutterClosed := 3 }
    let settings : Settings Float32 := { Settings.standard with shutterClosed := 3 }
    let idle := (gaps 5000 settings.minGapMs ([] : List (Effect Float32))).flatMap
      (fillGap settings { id := "MH1" } [])
    p.source.Levels ∧ p.target.Levels ∧
      (p.effects .fadeThroughBlack).map
          (fun e => (e.label, e.channels.dimmer.startValue, e.channels.dimmer.endValue)) =
        [("gap_fill:fade_out", 12.25, 0), ("gap_fill:fade_in", 0, 0)] ∧
      (∃ outgoing incoming, p.effects .fadeThroughBlack = outgoing ++ incoming ∧
        (∀ e ∈ outgoing, e.channels.StaysAt p.source ∧ e.channels.dimmer.endValue = 0) ∧
        (∀ e ∈ incoming, e.channels.StaysAt p.target ∧ e.channels.dimmer.startValue = 0)) ∧
      idle.map (fun e => (e.startMs, e.endMs, e.boundary.gapKind)) =
        [(0, 5000, some .start)] ∧
      ∀ e ∈ idle, e.Rests → e.channels.Dark 3 := by
  intro p settings idle
  have source : p.source.Levels := by
    refine ⟨?_, ?_, ?_⟩ <;> decide
  have target : p.target.Levels := by
    refine ⟨?_, ?_, ?_⟩ <;> decide
  obtain ⟨moving, resting⟩ := dark_moving_and_resting source target
  obtain ⟨-, dark⟩ := resting settings { id := "MH1" } 5000 []
  rw [inTurn_nil.resolveOverlaps_eq] at dark
  exact ⟨source, target, by decide +kernel, moving, by decide +kernel, dark⟩

end Timeline

end MovingLight
