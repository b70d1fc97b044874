import Mathlib.Data.List.Forall2
import MovingLight.Proofs.Formation
import MovingLight.Segment

/-!
# Segments — two shortcuts, and why they change nothing

Rendering a step takes two shortcuts. Heads of one calibration share the channels
that were drawn for the first of them, and heads that need no curve of their own
are spared the drawing of phase and inversion. `Segment.renderBy` is rendering
with both decisions left open, so that a shortcut is sound when two choices give
the same effects.

* What is shared was drawn for a head of the same calibration
  (`Segment.forall₂_sharedChannels`), and the channels of a head depend on nothing
  else about it (`Segment.channels_congr`). A head therefore gets what it would
  have got itself as soon as all heads are asked for the same.
* A movement without phase or inversion is drawn as it is, with or without a
  curve of its own (`Segment.channels_of_inPlace`), and no other movement occurs
  where curves are shared (`Formation.plain_of_mem_assign`).
-/

namespace MovingLight

variable {α : Type}

/-- A head found among those named was named, and is the head of its id. -/
theorem Rig.get?_of_mem_filterMap {rig : Rig α} {ids : List String} {f : Fixture α}
    (h : f ∈ ids.filterMap rig.get?) : f.id ∈ ids ∧ rig.get? f.id = some f := by
  obtain ⟨id, hid, found⟩ := List.mem_filterMap.mp h
  have named := List.find?_some found
  rw [eq_of_beq named]
  exact ⟨hid, found⟩

variable [Scalar α]

/-! ## Movements that are drawn alike -/

/-- A phase too small to matter moves nothing. -/
theorem ChannelValue.shifted_eq_self (v : ChannelValue α) {phaseDeg : α}
    (h : Scalar.abs (Scalar.emod phaseDeg 360) < 0.0001) (count : Nat) :
    v.shifted phaseDeg false count = v := by
  unfold ChannelValue.shifted
  refine if_pos ?_
  simp only [h, decide_true, Bool.not_false, Bool.and_self]

namespace Movement

/-- **A movement is drawn in place**: its phase is too small to matter, and it does not follow the
lower half of a pair. -/
structure InPlace (m : Movement α) : Prop where
  phase : Scalar.abs (Scalar.emod m.phaseDeg 360) < 0.0001
  upright : m.tiltRole ≠ some .down

theorem Plain.inPlace [Scalar.ZeroLaws α] {m : Movement α} (h : m.Plain) : m.InPlace := by
  refine ⟨?_, h.tiltRole⟩
  rw [h.phaseDeg, Scalar.ZeroLaws.emod_turn]
  exact Scalar.ZeroLaws.abs_zero_lt

/-- **Two movements ask for the same**: they differ in phase at most, and only where neither has
one that matters. -/
structure Alike (m n : Movement α) : Prop where
  butPhase : m = { n with phaseDeg := m.phaseDeg }
  phase : m.phaseDeg = n.phaseDeg ∨ m.InPlace ∧ n.InPlace

theorem Alike.of_eq {m n : Movement α} (h : m = n) : m.Alike n := by
  subst h
  exact ⟨rfl, Or.inl rfl⟩

end Movement

namespace Segment

variable (settings : Settings α) (step : Step α) (look : Appearance α)

/-! ## The channels of one head -/

/-- A movement in place is drawn as it is, with or without a curve of its own. -/
theorem channels_of_inPlace {m : Movement α} (h : m.InPlace) (f : Fixture α) :
    channels settings step look true f m = channels settings step look false f m := by
  have upright : (m.tiltRole == some .down) = false := beq_eq_false_iff_ne.mpr h.upright
  unfold channels
  simp only [upright, ChannelValue.shifted_eq_self _ h.phase, if_true]
  rfl

/-- Movements that ask for the same are drawn the same. -/
theorem channels_alike {m n : Movement α} (own : Bool) (h : m.Alike n) (f : Fixture α) :
    channels settings step look own f m = channels settings step look own f n := by
  rcases h.phase with same | ⟨inPlace, inPlace'⟩
  · have equal : m = n := by
      rw [h.butPhase, same]
    rw [equal]
  · have undrawn : channels settings step look false f m =
        channels settings step look false f n := by
      rw [h.butPhase]
      rfl
    cases own with
    | false => exact undrawn
    | true =>
      rw [channels_of_inPlace settings step look inPlace,
        channels_of_inPlace settings step look inPlace', undrawn]

private theorem map_const_congr {β γ : Type} {a b : Option β} (h : a.isSome = b.isSome) (c : γ) :
    a.map (fun _ => c) = b.map fun _ => c := by
  cases a with
  | none => cases b with
    | none => rfl
    | some y => cases h
  | some x => cases b with
    | none => cases h
    | some y => rfl

/-- **The channels of a head depend on its calibration**, and on nothing else about it. -/
theorem channels_congr {f g : Fixture α} (h : f.calibration = g.calibration) (own : Bool)
    (m : Movement α) :
    channels settings step look own f m = channels settings step look own g m := by
  have pan : f.pan = g.pan := congrArg Calibration.pan h
  have tilt : f.tilt = g.tilt := congrArg Calibration.tilt h
  have dimmer : f.dimmer = g.dimmer := congrArg Calibration.dimmer h
  have resting : f.restingPose settings = g.restingPose settings :=
    congrArg (Option.getD · settings.softHome) (congrArg Calibration.resting h)
  have shutter : f.channels.shutter.map (fun _ => ChannelValue.hold settings.shutterOpen) =
      g.channels.shutter.map fun _ => (.hold settings.shutterOpen : ChannelValue α) :=
    map_const_congr (congrArg Calibration.hasShutter h) _
  unfold channels Step.dimmer
  rw [pan, tilt, dimmer, resting, shutter]

/-! ## Sharing -/

/-- What is shared was drawn for a head of the same calibration. `known` is what has been drawn
already, for heads among `all`; the induction is on the heads to come. -/
theorem forall₂_sharedChannels {draw : Fixture α → ChannelSet α} {all heads : List (Fixture α)}
    {known : List (Calibration α × ChannelSet α)} (among : ∀ f ∈ heads, f ∈ all)
    (sound : ∀ k ∈ known, ∃ g ∈ all, g.calibration = k.1 ∧ draw g = k.2) :
    List.Forall₂ (fun f c => ∃ g ∈ all, g.calibration = f.calibration ∧ draw g = c) heads
      (sharedChannels draw known heads) := by
  induction heads generalizing known with
  | nil => exact .nil
  | cons f rest ih =>
    obtain ⟨hf, later⟩ := List.forall_mem_cons.mp among
    rw [sharedChannels]
    split
    · rename_i c found
      exact .cons (sound _ (Keyed.mem_of_lookup found)) (ih later sound)
    · have drawn : ∃ g ∈ all, g.calibration = f.calibration ∧ draw g = draw f := ⟨f, hf, rfl, rfl⟩
      exact .cons drawn (ih later (List.forall_mem_cons.mpr ⟨drawn, sound⟩))

/-- **Sharing is sound** where heads of one calibration would be drawn the same. -/
theorem sharedChannels_eq_ownChannels {draw : Fixture α → ChannelSet α} {heads : List (Fixture α)}
    (h : ∀ f ∈ heads, ∀ g ∈ heads, g.calibration = f.calibration → draw g = draw f) :
    sharedChannels draw [] heads = ownChannels draw heads := by
  have none_known : ∀ k ∈ ([] : List (Calibration α × ChannelSet α)),
      ∃ g ∈ heads, g.calibration = k.1 ∧ draw g = k.2 := List.forall_mem_nil _
  obtain ⟨length_eq, shared⟩ :=
    List.forall₂_iff_zip.mp (forall₂_sharedChannels (fun f hf => hf) none_known)
  have same : List.Forall₂ (fun f c => draw f = c) heads (sharedChannels draw [] heads) := by
    refine List.forall₂_iff_zip.mpr ⟨length_eq, fun {f c} hfc => ?_⟩
    obtain ⟨g, hg, calibration, rfl⟩ := shared hfc
    exact (h f (List.of_mem_zip hfc).1 g hg calibration).symm
  rw [← List.forall₂_map_left_iff, List.forall₂_eq_eq_eq] at same
  exact same.symm

/-! ## Rendering, with both decisions left open -/

/-- The movements of a step for the heads of the given ids. -/
def assigned (ids : List String) : List (String × Movement α) :=
  Formation.assign step.formationKind step.formationParams step.movement ids

/-- What a head is asked for in a step for the heads of the given ids. -/
def movementOf (ids : List String) (id : String) : Movement α :=
  ((assigned step ids).lookup id).getD step.movement

/-- The effect of a step for one head with its channels. -/
def headEffect (within : Span) (f : Fixture α) (c : ChannelSet α) : Effect α where
  fixtureId := f.id
  startMs := (step.window within).1
  endMs := (step.window within).2
  channels := c
  boundary := { sectionId := within.id }
  label := within.id ++ ":" ++ step.movement.pattern
  metadata := metadata step

/-- The channels of a head in a step for the heads of the given ids. -/
def headChannels (own : Bool) (ids : List String) (f : Fixture α) : ChannelSet α :=
  channels settings step look own f (movementOf step ids f.id)

/-- Rendering a step. `own` says whether a selection of some size is given curves of its own, and
`sets` how the channels of the heads are come by. -/
def renderBy (own : Nat → Bool)
    (sets : (Fixture α → ChannelSet α) → List (Fixture α) → List (ChannelSet α))
    (rig : Rig α) (within : Span) : Except ShowError (List (Effect α)) :=
  if (step.window within).2 ≤ (step.window within).1 then .ok []
  else do
    let ids ← Target.resolve rig step.target
    let heads := ids.filterMap rig.get?
    return heads.zipWith (headEffect step within)
      (sets (headChannels settings step look (own ids.length) ids) heads)

/-- How rendering comes by the channels of the heads. -/
def sharing (draw : Fixture α → ChannelSet α) (heads : List (Fixture α)) : List (ChannelSet α) :=
  if Formation.spreads α step.formationKind step.formationParams then ownChannels draw heads
  else sharedChannels draw [] heads

theorem render_eq_renderBy (rig : Rig α) (within : Span) :
    render rig settings within look step =
      renderBy settings step look (Formation.needsOwnCurves step.formationKind) (sharing step)
        rig within := rfl

variable {settings step look}

/-- Shared or not, the channels of a head were drawn for one of its calibration. -/
theorem forall₂_sharing (draw : Fixture α → ChannelSet α) (heads : List (Fixture α)) :
    List.Forall₂ (fun f c => ∃ g ∈ heads, g.calibration = f.calibration ∧ draw g = c) heads
      (sharing step draw heads) := by
  unfold sharing
  split
  · exact List.forall₂_map_right_iff.mpr (List.forall₂_same.mpr fun f hf => ⟨f, hf, rfl, rfl⟩)
  · exact forall₂_sharedChannels (fun f hf => hf) (List.forall_mem_nil _)

/-- **Every effect of a step** is made for a head that its target names, of channels that were drawn
for a head of the same calibration, and takes as long as the step, which is some time. -/
theorem exists_headEffect_of_mem_render {rig : Rig α} {within : Span} {effects : List (Effect α)}
    (h : render rig settings within look step = .ok effects) {e : Effect α} (he : e ∈ effects) :
    (step.window within).1 < (step.window within).2 ∧
      ∃ ids f g own m, Target.resolve rig step.target = .ok ids ∧ f.id ∈ ids ∧
        rig.get? f.id = some f ∧ g.calibration = f.calibration ∧
        e = headEffect step within f (channels settings step look own g m) := by
  rw [render_eq_renderBy] at h
  unfold renderBy at h
  split at h
  · cases h
    exact absurd he List.not_mem_nil
  · rename_i lasts
    refine ⟨Nat.lt_of_not_le lasts, ?_⟩
    cases resolved : Target.resolve rig step.target with
    | error error =>
      rw [resolved] at h
      cases h
    | ok ids =>
      rw [resolved] at h
      cases h
      rw [← List.map_uncurry_zip_eq_zipWith] at he
      obtain ⟨⟨f, c⟩, hfc, rfl⟩ := List.mem_map.mp he
      obtain ⟨g, -, calibration, rfl⟩ := (List.forall₂_iff_zip.mp (forall₂_sharing _ _)).2 hfc
      obtain ⟨mem, found⟩ := Rig.get?_of_mem_filterMap (List.of_mem_zip hfc).1
      exact ⟨ids, f, g, _, _, rfl, mem, found, calibration, rfl⟩

/-- Two choices give the same effects when they give the same channels for every selection. -/
theorem renderBy_congr {own own' : Nat → Bool}
    {sets sets' : (Fixture α → ChannelSet α) → List (Fixture α) → List (ChannelSet α)}
    {rig : Rig α} (within : Span)
    (h : ∀ ids, Target.resolve rig step.target = .ok ids →
      sets (headChannels settings step look (own ids.length) ids) (ids.filterMap rig.get?) =
        sets' (headChannels settings step look (own' ids.length) ids) (ids.filterMap rig.get?)) :
    renderBy settings step look own sets rig within =
      renderBy settings step look own' sets' rig within := by
  unfold renderBy
  split
  · rfl
  · cases resolved : Target.resolve rig step.target with
    | error e => rfl
    | ok ids =>
      show Except.ok _ = Except.ok _
      rw [h ids resolved]

theorem movementOf_eq_of_unknown (unknown : step.formationKind.bind Formation.ofName? = none)
    (ids : List String) (id : String) : movementOf step ids id = step.movement := by
  unfold movementOf
  cases found : (assigned step ids).lookup id with
  | none => rfl
  | some m => exact Formation.eq_base_of_mem_assign _ _ unknown (Keyed.mem_of_lookup found)

/-- **Sharing channels is sound.** Where every head is asked for the same, each is given the
channels it would have been drawn itself; without a formation every head is. -/
theorem render_eq_ownChannels (rig : Rig α) (within : Span)
    (h : step.formationKind.bind Formation.ofName? = none ∨
      ∀ ids, Target.resolve rig step.target = .ok ids →
        ∀ i ∈ ids, ∀ j ∈ ids, (movementOf step ids i).Alike (movementOf step ids j)) :
    render rig settings within look step =
      renderBy settings step look (Formation.needsOwnCurves step.formationKind) ownChannels
        rig within := by
  have alike : ∀ ids, Target.resolve rig step.target = .ok ids →
      ∀ i ∈ ids, ∀ j ∈ ids, (movementOf step ids i).Alike (movementOf step ids j) := by
    rcases h with unknown | alike
    · intro ids _ i _ j _
      refine Movement.Alike.of_eq ?_
      rw [movementOf_eq_of_unknown unknown, movementOf_eq_of_unknown unknown]
    · exact alike
  rw [render_eq_renderBy]
  refine renderBy_congr within fun ids resolved => ?_
  unfold sharing
  split
  · rfl
  · refine sharedChannels_eq_ownChannels fun f hf g hg calibration => ?_
    unfold headChannels
    rw [channels_congr settings step look calibration]
    exact channels_alike settings step look _
      (alike ids resolved _ (Rig.get?_of_mem_filterMap hg).1 _ (Rig.get?_of_mem_filterMap hf).1) f

/-- A formation nobody knows, on a rig where two heads of one calibration stand around one of
another. -/
theorem render_eq_ownChannels_of_mixed_rig :
    let step : Step Float32 := ⟨"", 0, 1, "ALL", {
      movement := some ⟨"circle", "fast", none, none⟩
      formation := some ⟨"spiral", []⟩ }⟩
    let rig : Rig Float32 := .ofFixtures [
      { id := "MH1" }, { id := "MH2", pan := ⟨540, 128, 40, 200⟩ }, { id := "MH3" }]
    let within : Span := ⟨"verse", 0, 4000, none, none⟩
    render rig .standard within {} step =
      renderBy .standard step {} (Formation.needsOwnCurves step.formationKind) ownChannels rig
        within := by
  intro step rig within
  exact render_eq_ownChannels rig within (Or.inl (by decide))

theorem plain_movement (step : Step α) : step.movement.Plain := by
  unfold Step.movement
  split
  · exact Movement.plain_hold
  · rename_i m _
    split
    · exact Movement.plain_hold
    · rename_i tier _
      have plain : (Movement.ofPattern m.pattern tier : Movement α).Plain :=
        Movement.plain_ofPattern _ _
      exact ⟨plain.phaseDeg, plain.tiltRole⟩

/-- **Sparing heads a curve of their own is sound.** Rendering gives the effects it would give if
every head had a curve of its own, because no head is asked for a phase or for the lower half of a
pair where it is spared one. -/
theorem render_eq_every_own [Scalar.ZeroLaws α] (settings : Settings α) (step : Step α)
    (look : Appearance α) (rig : Rig α) (within : Span) :
    render rig settings within look step =
        renderBy settings step look (fun _ => true) (sharing step) rig within ∧
      ∀ ids, Formation.needsOwnCurves step.formationKind ids.length = false →
        ∀ e ∈ assigned step ids, e.2.Plain := by
  have plain : ∀ ids, Formation.needsOwnCurves step.formationKind ids.length = false →
      ∀ e ∈ assigned step ids, e.2.Plain := fun ids shared e he =>
    Formation.plain_of_mem_assign _ _ shared (plain_movement step) he
  refine ⟨?_, plain⟩
  rw [render_eq_renderBy]
  refine renderBy_congr within fun ids _ => ?_
  cases own : Formation.needsOwnCurves step.formationKind ids.length with
  | true => rfl
  | false =>
    -- a head that is assigned nothing does the movement of the step, which is plain as well
    have asked : ∀ id, (movementOf step ids id).Plain := by
      intro id
      unfold movementOf
      cases found : (assigned step ids).lookup id with
      | none => exact plain_movement step
      | some m => exact plain ids own _ (Keyed.mem_of_lookup found)
    have drawn : headChannels settings step look false ids =
        headChannels settings step look true ids := by
      funext f
      exact (channels_of_inPlace settings step look (asked f.id).inPlace f).symm
    rw [drawn]

/-- A wave that travels backwards over a single head. -/
theorem render_eq_every_own_of_lone_wave :
    let step : Step Float32 := ⟨"", 0, 1, "ALL", {
      movement := some ⟨"circle", "fast", none, none⟩
      formation := some ⟨"wave_lr", [("direction", .text "reverse")]⟩ }⟩
    let rig : Rig Float32 := .ofFixtures [{ id := "MH1" }]
    let within : Span := ⟨"verse", 0, 4000, none, none⟩
    render rig .standard within {} step =
        renderBy .standard step {} (fun _ => true) (sharing step) rig within ∧
      ∀ ids, Formation.needsOwnCurves step.formationKind ids.length = false →
        ∀ e ∈ assigned step ids, e.2.Plain := by
  intro step rig within
  exact render_eq_every_own .standard step {} rig within

end Segment

end MovingLight
