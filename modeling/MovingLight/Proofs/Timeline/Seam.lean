import MovingLight.Proofs.Channel.Window
import MovingLight.Proofs.Scalar.Level
import MovingLight.Proofs.Timeline.Fill
import MovingLight.Proofs.Timeline.Neighbour

/-!
# Seams — no jump where one effect follows another

Where a head goes from one effect to the next straight, or in all three phases by way of its
resting pose, pan, tilt and dimmer change by no more than one level at once: not where it leaves
the first effect, not between two phases, not where it arrives at the second
(`Timeline.fill_seams_close`).

One level is what rounding can cost, and it is lost only once at a seam. A straight run starts and
ends where it is told to, unless it is so short that it holds the level nearest to its end. So a
run ends at its end or at the level nearest to it (`ChannelValue.EndsNear`), and the next run sets
out from that end as it was before rounding. This is the step, `EndsNear.close_run`; a way across
is a chain of such steps (`LeadsTo`).

What is said is said of the filled timeline, in which an effect may have been cut short, and its
values must have stayed levels. A curve that lists its points out of order may show, once it is cut
short, a value that it did not show before. What has to be a level is therefore every value a
curve lists.
-/

namespace MovingLight

variable [ExactReading]

/-- **A channel keeps to levels**: a wave at every time of its effect, a curve in every point it
lists. -/
def ChannelValue.Levels : ChannelValue ℚ → Prop
  | hold _ => True
  | wave w => ∀ t ∈ Set.Icc (0 : ℚ) 1, w.sample t ∈ Set.Icc (0 : ℚ) 255
  | curve c => ∀ p ∈ c, p.value ∈ Set.Icc (0 : ℚ) 255

/-- Position and light of a head keep to levels. -/
structure ChannelSet.Levels (c : ChannelSet ℚ) : Prop where
  pan : c.pan.Levels
  tilt : c.tilt.Levels
  dimmer : c.dimmer.Levels

/-- **Two effects meet**: from the end of the one to the start of the other, position and light
change by no more than one level. -/
structure Effect.Meets (e next : Effect ℚ) : Prop where
  pan : |e.channels.pan.endValue - next.channels.pan.startValue| ≤ 1
  tilt : |e.channels.tilt.endValue - next.channels.tilt.startValue| ≤ 1
  dimmer : |e.channels.dimmer.endValue - next.channels.dimmer.startValue| ≤ 1

/-! ## The nearest level -/

namespace Dmx

theorem abs_level_sub_le {x : ℚ} (h : x ∈ Set.Icc (0 : ℚ) 255) :
    |((level x).toNat : ℚ) - x| ≤ 1 / 2 := by
  have nearest : (((level x).toNat : ℤ) : ℚ) = (⌊x + 1 / 2⌋ : ℚ) := by rw [level_toNat h]
  rw [Int.cast_natCast] at nearest
  have below := Int.floor_le (x + 1 / 2)
  have above := Int.lt_floor_add_one (x + 1 / 2)
  rw [nearest, abs_le]
  constructor <;> linarith

/-- The levels nearest to two numbers that lie less than half a level apart are neighbours. -/
theorem abs_level_sub_level_le {x y : ℚ} (hx : x ∈ Set.Icc (0 : ℚ) 255)
    (hy : y ∈ Set.Icc (0 : ℚ) 255) (close : |x - y| < 1 / 2) :
    |((level x).toNat : ℚ) - ((level y).toNat : ℚ)| ≤ 1 := by
  have nearest_x := level_toNat hx
  have nearest_y := level_toNat hy
  obtain ⟨below, above⟩ := abs_lt.mp close
  have up : ⌊x + 1 / 2⌋ ≤ ⌊y + 1 / 2⌋ + 1 := by
    rw [← Int.floor_add_one]
    exact Int.floor_le_floor (by linarith)
  have down : ⌊y + 1 / 2⌋ ≤ ⌊x + 1 / 2⌋ + 1 := by
    rw [← Int.floor_add_one]
    exact Int.floor_le_floor (by linarith)
  have neighbours : |((level x).toNat : ℤ) - ((level y).toNat : ℤ)| ≤ 1 := by
    rw [nearest_x, nearest_y, abs_le]
    omega
  exact_mod_cast neighbours

end Dmx

/-! ## Channels of levels -/

namespace ChannelValue

theorem Levels.valueAt_mem {v : ChannelValue ℚ} (h : v.Levels) {t : ℚ}
    (ht : t ∈ Set.Icc (0 : ℚ) 1) : v.valueAt t ∈ Set.Icc (0 : ℚ) 255 := by
  cases v with
  | hold level => exact Scalar.byte_mem level
  | wave w => exact h t ht
  | curve c =>
    by_cases empty : c = []
    · subst empty
      show (0 : ℚ) ∈ Set.Icc (0 : ℚ) 255
      norm_num
    · exact Curve.Within.valueAt_mem ⟨empty, h⟩ t

/-- A channel that keeps to the window of all levels keeps to levels. -/
theorem KeepsTo.levels {v : ChannelValue ℚ} (h : v.KeepsTo (Set.Icc 0 255)) : v.Levels := by
  cases v with
  | hold level => trivial
  | wave w => exact fun t _ => KeepsTo.valueAt_mem (v := wave w) h t
  | curve c => exact h.values

/-- **Cutting a channel short keeps it to levels.** -/
theorem Levels.truncated {v : ChannelValue ℚ} (h : v.Levels) (ratio : ℚ) (count : Nat) :
    (v.truncated ratio count).Levels := by
  unfold ChannelValue.truncated
  dsimp only
  split
  · exact h
  · cases v with
    | hold level => trivial
    | wave w =>
      intro p hp
      obtain ⟨i, hi, rfl⟩ := List.mem_map.mp hp
      obtain ⟨start, finish⟩ := Scalar.evenTime_mem (List.mem_range.mp hi)
      obtain ⟨positive, part⟩ := Scalar.clampUnit_mem ratio
      exact h _ ⟨mul_nonneg start positive, mul_le_one₀ finish positive part⟩
    | curve c =>
      by_cases empty : c = []
      · subst empty
        exact List.forall_mem_nil _
      · exact (Curve.Within.truncated ⟨empty, h⟩ _).values

/-! ## Straight runs -/

/-- **A channel ends at a value**, or at the level nearest to it. -/
def EndsNear (x : ℚ) (v : ChannelValue ℚ) : Prop :=
  v.endValue = x ∨ v.endValue = ((Dmx.level x).toNat : ℚ)

variable {x y : ℚ}

/-- A run of half a level or more starts and ends where it is told to. -/
theorem run_ends (hx : x ∈ Set.Icc (0 : ℚ) 255) (hy : y ∈ Set.Icc (0 : ℚ) 255)
    (far : ¬|x - y| < 1 / 2) :
    (Passage.run x y).startValue = x ∧ (Passage.run x y).endValue = y := by
  have runs : Passage.run x y = .curve (Curve.linear x y) := by
    unfold Passage.run
    rw [Scalar.clamp_of_mem hx, Scalar.clamp_of_mem hy, if_neg]
    show ¬|x - y| < 0.5
    norm_num at far ⊢
    exact far
  rw [runs]
  constructor
  · show (Curve.linear x y).valueAt 0 = x
    exact Curve.valueAt_linear_zero (le_refl (0 : ℚ))
  · exact Curve.valueAt_linear_exact x y

/-- A run of less than half a level holds the level nearest to its end. -/
theorem run_ends_of_close (close : |x - y| < 1 / 2) :
    (Passage.run x y).startValue = ((Dmx.level y).toNat : ℚ) ∧
      (Passage.run x y).endValue = ((Dmx.level y).toNat : ℚ) := by
  have holds : Passage.run x y = .hold (Dmx.level y) := by
    unfold Passage.run
    rw [if_pos]
    show |x - y| < 0.5
    norm_num at close ⊢
    exact close
  rw [holds]
  exact ⟨rfl, rfl⟩

theorem endsNear_run (hx : x ∈ Set.Icc (0 : ℚ) 255) (hy : y ∈ Set.Icc (0 : ℚ) 255) :
    (Passage.run x y).EndsNear y := by
  by_cases close : |x - y| < 1 / 2
  · exact Or.inr (run_ends_of_close close).2
  · exact Or.inl (run_ends hx hy close).2

/-- **One step**: a run starts within one level of what ends where it sets out. -/
theorem EndsNear.close_run {v : ChannelValue ℚ} (h : v.EndsNear x)
    (hx : x ∈ Set.Icc (0 : ℚ) 255) (hy : y ∈ Set.Icc (0 : ℚ) 255) :
    |v.endValue - (Passage.run x y).startValue| ≤ 1 := by
  by_cases close : |x - y| < 1 / 2
  · rw [(run_ends_of_close close).1]
    rcases h with exactly | rounded
    · have near := Dmx.abs_level_sub_le hy
      rw [abs_le] at near ⊢
      rw [abs_lt] at close
      rw [exactly]
      constructor <;> linarith
    · rw [rounded]
      exact Dmx.abs_level_sub_level_le hx hy close
  · rw [(run_ends hx hy close).1]
    rcases h with exactly | rounded
    · rw [exactly, sub_self, abs_zero]
      exact zero_le_one
    · rw [rounded]
      exact le_trans (Dmx.abs_level_sub_le hx) (by norm_num)

/-- **The last step**: what ends where another channel starts is within one level of it. -/
theorem EndsNear.close {v : ChannelValue ℚ} (h : v.EndsNear x) (hx : x ∈ Set.Icc (0 : ℚ) 255) :
    |v.endValue - x| ≤ 1 := by
  rcases h with exactly | rounded
  · rw [exactly, sub_self, abs_zero]
    exact zero_le_one
  · rw [rounded]
    exact le_trans (Dmx.abs_level_sub_le hx) (by norm_num)

end ChannelValue

/-! ## Effects and anchors -/

/-- **An effect ends at an anchor**, or at the levels nearest to it. -/
structure Effect.EndsNear (a : Anchor ℚ) (e : Effect ℚ) : Prop where
  pan : e.channels.pan.EndsNear a.pan
  tilt : e.channels.tilt.EndsNear a.tilt
  dimmer : e.channels.dimmer.EndsNear a.dimmer

theorem Effect.endedBy_levels {e : Effect ℚ} (h : e.channels.Levels) (count : Nat)
    (next : Option Nat) : (e.endedBy count next).channels.Levels := by
  unfold Effect.endedBy
  split
  · exact h
  · split
    · exact ⟨h.pan.truncated _ _, h.tilt.truncated _ _, h.dimmer.truncated _ _⟩
    · exact h

/-- At any time of an effect of levels the head shows levels. -/
theorem Anchor.levels_moment {c : ChannelSet ℚ} (h : c.Levels) {t : ℚ}
    (ht : t ∈ Set.Icc (0 : ℚ) 1) : (Anchor.moment t c).Levels :=
  ⟨h.pan.valueAt_mem ht, h.tilt.valueAt_mem ht, h.dimmer.valueAt_mem ht⟩

theorem Fixture.levels_darkHome (f : Fixture ℚ) (settings : Settings ℚ) :
    (f.darkHome settings).Levels where
  pan := f.pan.window.range_subset (f.pan.window.clamp_mem _)
  tilt := f.tilt.window.range_subset (f.tilt.window.clamp_mem _)
  dimmer := ⟨le_refl (0 : ℚ), Scalar.OrderLaws.zero_le_full⟩

section Step

variable {source target : Anchor ℚ} {e next : Effect ℚ} (levels : source.Levels)
  (levels' : target.Levels)

include levels levels'

theorem Effect.endsNear_of_channels (shows : e.channels = Passage.channels source target) :
    e.EndsNear target := by
  constructor <;> rw [shows]
  · exact ChannelValue.endsNear_run levels.pan levels'.pan
  · exact ChannelValue.endsNear_run levels.tilt levels'.tilt
  · exact ChannelValue.endsNear_run levels.dimmer levels'.dimmer

theorem Effect.EndsNear.meets_run (h : e.EndsNear source)
    (shows : next.channels = Passage.channels source target) : e.Meets next := by
  constructor <;> rw [shows]
  · exact h.pan.close_run levels.pan levels'.pan
  · exact h.tilt.close_run levels.tilt levels'.tilt
  · exact h.dimmer.close_run levels.dimmer levels'.dimmer

end Step

theorem Effect.EndsNear.meets_startOf {e next : Effect ℚ}
    (h : e.EndsNear (.startOf next.channels)) (levels : (Anchor.startOf next.channels).Levels) :
    e.Meets next :=
  ⟨h.pan.close levels.pan, h.tilt.close levels.tilt, h.dimmer.close levels.dimmer⟩

/-! ## Ways across -/

/-- **Effects lead to an anchor from another**: each runs straight, and from where the one before it
was to end. -/
inductive LeadsTo (target : Anchor ℚ) : Anchor ℚ → List (Effect ℚ) → Prop where
  | last {source : Anchor ℚ} {e : Effect ℚ}
      (shows : e.channels = Passage.channels source target) : LeadsTo target source [e]
  | step {source mid : Anchor ℚ} {e : Effect ℚ} {rest : List (Effect ℚ)}
      (shows : e.channels = Passage.channels source mid) (levels : mid.Levels)
      (rest_leads : LeadsTo target mid rest) : LeadsTo target source (e :: rest)

/-- **A way across has no jump in it**, nor at either end of it. The induction is along the way, for
any effect that ends where it sets out. -/
theorem LeadsTo.isChain_meets {target source : Anchor ℚ} {run : List (Effect ℚ)}
    (h : LeadsTo target source run) {before after : Effect ℚ} (ends : before.EndsNear source)
    (levels : source.Levels) (levels' : target.Levels)
    (starts : target = .startOf after.channels) :
    (before :: (run ++ [after])).IsChain Effect.Meets := by
  induction h generalizing before with
  | last shows =>
    have near := Effect.endsNear_of_channels levels levels' shows
    subst starts
    exact .cons_cons (ends.meets_run levels levels' shows)
      (.cons_cons (near.meets_startOf levels') (.singleton after))
  | step shows mid_levels _ ih =>
    have near := Effect.endsNear_of_channels levels mid_levels shows
    exact .cons_cons (ends.meets_run levels mid_levels shows) (ih near mid_levels)

namespace Passage

omit [ExactReading] in
/-- Of three phases of which none is left out there is one each. -/
theorem exists_of_length_three {β : Type} {first second third : Option β}
    (three : (first.toList ++ second.toList ++ third.toList).length = 3) :
    ∃ x y z, first = some x ∧ second = some y ∧ third = some z := by
  cases first <;> cases second <;> cases third <;> simp at three ⊢

variable {p : Passage ℚ}

/-- **Straight, or in three phases by way of the resting pose**, the effects of a passage lead across
it. -/
theorem leadsTo_effects (home : p.home.Levels) {mode : TransitionMode}
    (way : mode = .crossfade ∨ mode = .gapFill)
    (whole : (p.effects mode).map (·.label) = labels mode) :
    LeadsTo p.target p.source (p.effects mode) := by
  have length : (p.effects mode).length = (labels mode).length := by
    rw [← whole, List.length_map]
  rcases way with rfl | rfl
  · cases only : p.phase? "crossfade" p.startMs p.endMs p.source p.target with
    | none =>
      rw [effects, crossfade, only] at length
      exact absurd length (by decide)
    | some e =>
      rw [effects, crossfade, only]
      exact .last (of_mem_phase? (Option.mem_toList.mpr only)).2
  · obtain ⟨out, rest, back, outward, resting, onward⟩ := exists_of_length_three length
    have run : p.effects .gapFill = [out, rest, back] := by
      show _ ++ _ ++ _ = _
      rw [outward, resting, onward]
      rfl
    rw [run]
    refine .step (of_mem_phase? (Option.mem_toList.mpr outward)).2 home ?_
    refine .step (of_mem_phase? (Option.mem_toList.mpr resting)).2 home ?_
    exact .last (of_mem_phase? (Option.mem_toList.mpr onward)).2

end Passage

/-! ## A filled timeline -/

namespace Timeline

variable {settings : Settings ℚ} {f : Fixture ℚ} {songMs : Nat}

theorem resolveOverlaps_levels {effects : List (Effect ℚ)}
    (levels : ∀ e ∈ effects, e.channels.Levels) (count : Nat) :
    ∀ e ∈ resolveOverlaps count effects, e.channels.Levels :=
  forall_resolveOverlaps (fun _ next h => Effect.endedBy_levels h count next) levels

omit [ExactReading] in
/-- The effects on both sides of a gap and those that fill it tile the time from the start of the
one to the end of the other. -/
theorem Fills.tiles_between {g : Gap} {run : List (Effect ℚ)} (fills : Fills f g run)
    {p n : Effect ℚ} (p_lasts : p.Lasts) (n_lasts : n.Lasts) (ends : p.endMs = g.startMs)
    (starts : n.startMs = g.endMs) : Tiles p.startMs n.endMs (p :: (run ++ [n])) := by
  refine ⟨rfl, p_lasts, ?_⟩
  rw [ends]
  exact fills.tiles.append ⟨starts, n_lasts, rfl⟩

/-- What fills a gap between two effects, straight or in all three phases, leads from the end of the
one to the start of the other. -/
theorem InTurn.leadsTo_fillGap {laid : List (Effect ℚ)} (turn : InTurn laid) {g : Gap}
    (hg : g ∈ gaps songMs settings.minGapMs laid) (between : g.kind = .between) {p n : Effect ℚ}
    (hp : before? laid g = some p) (hn : after? laid g = some n) {way : TransitionMode}
    (straight_or_home : way = .crossfade ∨ way = .gapFill)
    (whole : (fillGap settings f laid g).map (·.label) = Passage.labels way) :
    LeadsTo (.startOf n.channels) (.endOf p.channels) (fillGap settings f laid g) := by
  obtain ⟨mode, source, target, -, crosses⟩ := crossing?_classify (f.darkHome settings) g
    (before? laid g) (after? laid g) settings.largeGapMs
  rw [(gapOf_one_of_mem turn.queue hg).classify_kind Nat.one_pos turn.lasts] at crosses
  have no_snap : way ≠ .snap := by
    rcases straight_or_home with rfl | rfl <;> exact nofun
  have home : (f.darkHome settings).Levels := f.levels_darkHome settings
  rcases crossing?_eq_some crosses with ⟨-, -, -, other⟩ | ⟨p', n', hp', hn', -, rfl, rfl⟩
  · exact absurd between other
  · obtain rfl : p = p' := Option.some.inj (hp.symm.trans hp')
    obtain rfl : n = n' := Option.some.inj (hn.symm.trans hn')
    rw [fillGap_eq crosses] at whole ⊢
    obtain rfl := Passage.eq_of_labels no_snap whole
    exact Passage.leadsTo_effects home straight_or_home whole

/-- **No jump between two effects.** Where pan, tilt and dimmer of the effects of a head are levels
and a gap between two of them is crossed straight, or by way of the resting pose with no phase left
out, the two effects and what fills the gap stand next to one another in the filled timeline, and
each meets the next. -/
theorem fill_seams_close (settings : Settings ℚ) (f : Fixture ℚ) (songMs : Nat)
    {effects : List (Effect ℚ)} (levels : ∀ e ∈ effects, e.channels.Levels) :
    let laid := resolveOverlaps settings.curvePoints effects
    ∀ g ∈ gaps songMs settings.minGapMs laid, g.kind = .between →
      let run := fillGap settings f laid g
      (run.map (·.label) = ["gap_fill:crossfade"] ∨
        run.map (·.label) = ["gap_fill:ramp_to_home", "gap_fill:hold", "gap_fill:ramp_to_next"]) →
      ∃ p ∈ laid, ∃ n ∈ laid, p.endMs = g.startMs ∧ n.startMs = g.endMs ∧
        (p :: (run ++ [n])) <:+: fill settings f songMs effects ∧
        (p :: (run ++ [n])).IsChain Effect.Meets := by
  intro laid g hg between run whole
  have turn : InTurn laid := inTurn_resolveOverlaps _ _
  have laid_levels : ∀ e ∈ laid, e.channels.Levels := resolveOverlaps_levels levels _
  obtain ⟨p, n, hp, hn, mem_p, mem_n, ends, starts⟩ := turn.exists_neighbours hg between
  refine ⟨p, mem_p, n, mem_n, ends, starts, ?_, ?_⟩
  · have tiles : Tiles p.startMs n.endMs (p :: (run ++ [n])) :=
      (turn.fills hg).tiles_between (turn.lasts p mem_p) (turn.lasts n mem_n) ends starts
    refine tiles.isInfix (inTurn_fill _ _ _ _) ?_
    intro e he
    apply mem_fill.mpr
    rcases List.mem_cons.mp he with rfl | he
    · exact Or.inl mem_p
    · rcases List.mem_append.mp he with he | he
      · exact Or.inr ⟨g, hg, he⟩
      · obtain rfl := List.mem_singleton.mp he
        exact Or.inl mem_n
  · have leads : LeadsTo (.startOf n.channels) (.endOf p.channels) run := by
      rcases whole with straight | three
      · exact turn.leadsTo_fillGap hg between hp hn (Or.inl rfl) straight
      · exact turn.leadsTo_fillGap hg between hp hn (Or.inr rfl) three
    have source_levels : (Anchor.endOf p.channels).Levels :=
      Anchor.levels_moment (laid_levels p mem_p) ⟨zero_le_one, le_rfl⟩
    have target_levels : (Anchor.startOf n.channels).Levels :=
      Anchor.levels_moment (laid_levels n mem_n) ⟨le_rfl, zero_le_one⟩
    exact leads.isChain_meets ⟨Or.inl rfl, Or.inl rfl, Or.inl rfl⟩ source_levels target_levels rfl

omit [ExactReading] in
/-- A second without effect before one that is cut short, and six seconds after the one that cuts
it. The first gap is crossed straight, from a wave to a curve and less than half a level away in
tilt; the second in three phases. -/
theorem fill_seams_close_of_two_gaps :
    letI := ExactReading.parabolic
    let effect (startMs endMs : Nat) (pan tilt dimmer : ChannelValue ℚ) : Effect ℚ := {
      fixtureId := "MH1"
      startMs := startMs
      endMs := endMs
      channels := { pan := pan, tilt := tilt, dimmer := dimmer }
      boundary := {}
      label := ""
      metadata := [] }
    let effects := [
      effect 0 1000 (.hold 12) (.hold 40) (.wave ⟨.sine, 0, 250, 0, 100, 25, 50⟩),
      effect 2000 6000 (.curve (Curve.linear 100.3 200.9)) (.curve (Curve.linear 40.4 80))
        (.hold 255),
      effect 5000 6000 (.hold 90) (.hold 30) (.hold 120),
      effect 12000 13000 (.hold 200) (.hold 60) (.curve [])]
    let f : Fixture ℚ := { id := "MH1", pan := ⟨540, 128, 100, 140⟩ }
    let laid := resolveOverlaps 25 effects
    let found := gaps 13000 100 laid
    (∀ e ∈ effects, e.channels.Levels) ∧
      found.map (fun g => (g.startMs, g.endMs, (fillGap .standard f laid g).map (·.label))) =
        [(1000, 2000, ["gap_fill:crossfade"]),
          (6000, 12000, ["gap_fill:ramp_to_home", "gap_fill:hold", "gap_fill:ramp_to_next"])] ∧
      ∀ g ∈ found, ∃ p ∈ laid, ∃ n ∈ laid, p.endMs = g.startMs ∧ n.startMs = g.endMs ∧
        (p :: (fillGap .standard f laid g ++ [n])) <:+: fill .standard f 13000 effects ∧
        (p :: (fillGap .standard f laid g ++ [n])).IsChain Effect.Meets := by
  intro effect effects f laid found
  let reading := ExactReading.parabolic
  have levels : ∀ e ∈ effects, e.channels.Levels := by
    have line : ∀ {x y : ℚ}, x ∈ Set.Icc (0 : ℚ) 255 → y ∈ Set.Icc (0 : ℚ) 255 →
        (ChannelValue.curve (Curve.linear x y)).Levels := fun hx hy =>
      ChannelValue.KeepsTo.levels (Curve.within_linear hx hy)
    have swing : (ChannelValue.wave ⟨.sine, 0, 250, 0, 100, 25, 50⟩).Levels :=
      ChannelValue.KeepsTo.levels ⟨by norm_num, by norm_num⟩
    intro e he
    simp only [effects, List.mem_cons, List.not_mem_nil, or_false] at he
    rcases he with rfl | rfl | rfl | rfl
    · exact ⟨trivial, trivial, swing⟩
    · exact ⟨line (by norm_num) (by norm_num), line (by norm_num) (by norm_num), trivial⟩
    · exact ⟨trivial, trivial, trivial⟩
    · exact ⟨trivial, trivial, List.forall_mem_nil _⟩
  have ordered : effects.Pairwise fun a b => a.startMs ≤ b.startMs := by decide
  have laid_eq : laid = (effects.foldl (lay 25) []).reverse := by
    show ((sorted effects).foldl (lay 25) []).reverse = _
    rw [sorted_eq_self ordered]
  have filled : ∀ g ∈ gaps 13000 100 laid, g.kind = .between ∧
      ((fillGap .standard f laid g).map (·.label) = ["gap_fill:crossfade"] ∨
        (fillGap .standard f laid g).map (·.label) =
          ["gap_fill:ramp_to_home", "gap_fill:hold", "gap_fill:ramp_to_next"]) := by
    rw [laid_eq]
    decide +kernel
  refine ⟨levels, ?_, ?_⟩
  · show (gaps 13000 100 laid).map _ = _
    rw [laid_eq]
    decide +kernel
  · intro g hg
    obtain ⟨between, whole⟩ := filled g hg
    exact fill_seams_close .standard f 13000 levels g hg between whole

end Timeline

end MovingLight
