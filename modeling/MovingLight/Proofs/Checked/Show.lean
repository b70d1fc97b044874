import MovingLight.Proofs.Checked.Blend
import MovingLight.Proofs.Checked.Fill
import MovingLight.Proofs.Checked.Segment
import MovingLight.Show
import MovingLight.Table

/-!
# Shows, checked

A show is rendered section by section and head by head, and its table is filled effect by
effect. Neither asks for anything that is not there: a text that is new is stored at the
last place, a layer that is free is one of those found free, and every point of a curve is
limited to the unit interval before it is written out.

`Plan.render_faultless` is what the checked evaluations come to. Whatever a plan, a rig and
the settings are, a machine does not stop on the way from the plan to the table, and ends
up with the table that the plan has.
-/

namespace MovingLight

variable {α : Type} [Scalar α]

/-! ## Settings texts -/

/-- A point as a player reads it: time and level, both from zero to one. -/
def CurvePoint.descriptorChecked (p : CurvePoint α) : Checked String := do
  let t ← Checked.clampUnit p.t
  let level ← Checked.clampUnit (p.value / 255)
  return Scalar.fixed 3 t ++ ":" ++ Scalar.fixed 3 level

/-- The descriptor of a curve on a numbered channel. -/
def Curve.descriptorChecked (number : Nat) (c : Curve α) : Checked String := do
  let values ← c.mapM CurvePoint.descriptorChecked
  return "Active=TRUE|Id=ID_VALUECURVE_DMX" ++ toString number ++
    "|Type=Custom|Min=0.00|Max=255.00|RV=TRUE|Values=" ++ ";".intercalate values ++ "|"

/-- The setting of a numbered channel. -/
def Assignment.settingChecked (number : Nat) : Assignment α → Checked ChannelSetting
  | value (.curve c) => do return .curve (← c.descriptorChecked number)
  | other => .ok (other.setting number)

/-- The settings of an effect on a head. -/
def Effect.settingsChecked (e : Effect α) (f : Fixture α) : Checked EffectSettings := do
  return ⟨← (f.channels.assignments e.channels).mapM fun a => do
    return (a.1, ← a.2.settingChecked a.1)⟩

/-! ## Tables -/

namespace EffectTable

/-- The index of a text, and the texts with it. -/
def internChecked (texts : List String) (text : String) : Checked (Nat × List String) :=
  match texts.findIdx? (· == text) with
  | some i => .ok (i, texts)
  | none => do
    let texts := texts ++ [text]
    return (← Checked.back texts.length 1, texts)

/-- The first layer that is free at a time, and the ends of all layers once it is taken
until `endMs`. -/
def takeLayerChecked (startMs endMs : Nat) (ends : List Nat) : Checked (Nat × List Nat) :=
  match ends.findIdx? (· ≤ startMs) with
  | some layer => do return (layer, ← Checked.replace ends layer endMs)
  | none => do
    let ends := ends ++ [endMs]
    return (← Checked.back ends.length 1, ends)

/-- The effects of one head placed one after another. -/
def placeAllChecked (f : Fixture α) :
    List Nat → List String → List (Effect α) → Checked (List Placement × List String)
  | _, texts, [] => .ok ([], texts)
  | ends, texts, e :: rest => do
    let (ref, texts) ← internChecked texts (← e.settingsChecked f).encode
    let (layer, ends) ← takeLayerChecked e.startMs e.endMs ends
    let later ← placeAllChecked f ends texts rest
    return (⟨f.displayName, layer, e.startMs, e.endMs, e.label, ref⟩ :: later.1, later.2)

/-- The table with the timeline of one more head. -/
def addTimelineChecked (rig : Rig α) (t : EffectTable) (h : HeadTimeline α) :
    Checked EffectTable :=
  match rig.get? h.fixtureId with
  | none => .ok t
  | some f => do
    let added ← placeAllChecked f [] t.settings h.effects
    return ⟨added.2, t.placements ++ added.1⟩

end EffectTable

/-- The table of a show on a rig. -/
def Show.tableChecked (s : Show α) (rig : Rig α) : Checked EffectTable :=
  s.timelines.foldlM (EffectTable.addTimelineChecked rig) ⟨[], []⟩

/-! ## Plans -/

namespace Plan

/-- The effects of one section; a step whose target cannot be found has none. -/
def sectionEffectsChecked (p : Plan α) (rig : Rig α) (settings : Settings α) (s : PlanSection α)
    (steps : List (Step α)) : Checked (List (Effect α)) :=
  let look := Appearance.resolve (p.appearances.lookup s.id)
  steps.flatMapM fun step => do
    match ← Segment.renderChecked rig settings s.span look step with
    | .ok effects => return effects
    | .error _ => return []

/-- All effects of a plan, section by section, tagged. -/
def sequencedChecked (p : Plan α) (rig : Rig α) (settings : Settings α) :
    Checked (List (Effect α)) := do
  let effects ← p.usableSections.flatMapM fun u => p.sectionEffectsChecked rig settings u.1 u.2
  return Timeline.tag (p.usableSections.map (·.1.span)) effects

/-- The timeline of one head, given its effects. -/
def timelineChecked (p : Plan α) (settings : Settings α) (own : Fixture α × List (Effect α)) :
    Checked (HeadTimeline α) := do
  let filled ← Timeline.fillChecked settings own.1 p.songDurationMs own.2
  return ⟨own.1.id, ← Timeline.finishChecked settings filled⟩

/-- The plan rendered for a rig. -/
def renderChecked (p : Plan α) (rig : Rig α) (settings : Settings α) :
    Checked (Except ShowError (Show α)) :=
  if rig.fixtures.isEmpty then .ok (.error .noFixtures)
  else if p.usableSections.isEmpty then .ok (.error .emptyPlan)
  else do
    let effects ← p.sequencedChecked rig settings
    return .ok {
      songMs := p.songDurationMs
      timelines := ← (divided effects rig.fixtures).mapM (p.timelineChecked settings)
      skipped := p.unusableIds }

/-- The plan rendered for a rig, and the show put into a table. -/
def tableChecked (p : Plan α) (rig : Rig α) (settings : Settings α) :
    Checked (Except ShowError EffectTable) := do
  match ← p.renderChecked rig settings with
  | .ok s => return .ok (← s.tableChecked rig)
  | .error e => return .error e

end Plan

/-! ## No fault -/

namespace EffectTable

@[simp]
theorem internChecked_ok (texts : List String) (text : String) :
    internChecked texts text = .ok (intern texts text) := by
  unfold internChecked intern
  cases texts.findIdx? (· == text) with
  | some i => rfl
  | none =>
    have newest : (texts ++ [text]).length = texts.length + 1 := List.length_append
    dsimp only
    rw [Checked.back_ok newest]
    rfl

/-- Taking a layer is looking for the first one that is free, and adding one where none is. -/
theorem takeLayer_eq (startMs endMs : Nat) (ends : List Nat) :
    takeLayer startMs endMs ends =
      match ends.findIdx? (· ≤ startMs) with
      | some layer => (layer, ends.set layer endMs)
      | none => (ends.length, ends ++ [endMs]) := by
  induction ends with
  | nil => rfl
  | cons e rest ih =>
    rw [takeLayer, List.findIdx?_cons]
    split
    case isTrue free =>
      rw [if_pos (decide_eq_true free)]
      rfl
    case isFalse busy =>
      rw [if_neg (by simpa using busy), ih]
      cases rest.findIdx? (· ≤ startMs) <;> rfl

@[simp]
theorem takeLayerChecked_ok (startMs endMs : Nat) (ends : List Nat) :
    takeLayerChecked startMs endMs ends = .ok (takeLayer startMs endMs ends) := by
  rw [takeLayer_eq, takeLayerChecked]
  cases found : ends.findIdx? (· ≤ startMs) with
  | some layer =>
    obtain ⟨inside, -⟩ := List.findIdx?_eq_some_iff_getElem.mp found
    dsimp only
    rw [Checked.replace_ok inside]
    rfl
  | none =>
    have newest : (ends ++ [endMs]).length = ends.length + 1 := List.length_append
    dsimp only
    rw [Checked.back_ok newest]
    rfl

end EffectTable

variable [Scalar.OrderLaws α]

@[simp]
theorem CurvePoint.descriptorChecked_ok :
    CurvePoint.descriptorChecked = fun p : CurvePoint α => .ok p.descriptor := by
  funext p
  simp [CurvePoint.descriptorChecked, CurvePoint.descriptor]

@[simp]
theorem Curve.descriptorChecked_ok (number : Nat) (c : Curve α) :
    c.descriptorChecked number = .ok (c.descriptor number) := by
  rw [Curve.descriptorChecked, CurvePoint.descriptorChecked_ok, Checked.mapM_ok, Checked.ok_bind]
  rfl

@[simp]
theorem Assignment.settingChecked_ok (number : Nat) (a : Assignment α) :
    a.settingChecked number = .ok (a.setting number) := by
  cases a with
  | byte b => rfl
  | value v =>
    cases v with
    | hold level => rfl
    | wave w => rfl
    | curve c =>
      rw [Assignment.settingChecked, Curve.descriptorChecked_ok]
      rfl

@[simp]
theorem Effect.settingsChecked_ok (e : Effect α) (f : Fixture α) :
    e.settingsChecked f = .ok (e.settings f) := by
  simp [Effect.settingsChecked, Effect.settings]

@[simp]
theorem EffectTable.placeAllChecked_ok (f : Fixture α) (ends : List Nat) (texts : List String)
    (effects : List (Effect α)) :
    EffectTable.placeAllChecked f ends texts effects =
      .ok (EffectTable.placeAll f ends texts effects) := by
  induction effects generalizing ends texts with
  | nil => rfl
  | cons e rest ih => simp [EffectTable.placeAllChecked, EffectTable.placeAll, ih]

@[simp]
theorem EffectTable.addTimelineChecked_ok (rig : Rig α) :
    EffectTable.addTimelineChecked rig = fun t h => .ok (EffectTable.addTimeline rig t h) := by
  funext t h
  unfold EffectTable.addTimelineChecked EffectTable.addTimeline
  cases rig.get? h.fixtureId with
  | none => rfl
  | some f => simp

@[simp]
theorem Show.tableChecked_ok (s : Show α) (rig : Rig α) :
    s.tableChecked rig = .ok (s.table rig) := by
  simp [Show.tableChecked, Show.table]

namespace Plan

variable (p : Plan α) (rig : Rig α) (settings : Settings α)

@[simp]
theorem sectionEffectsChecked_ok (s : PlanSection α) (steps : List (Step α)) :
    p.sectionEffectsChecked rig settings s steps =
      .ok (p.sectionEffects rig settings s steps) := by
  unfold sectionEffectsChecked sectionEffects
  generalize Appearance.resolve (p.appearances.lookup s.id) = look
  dsimp only
  rw [← Checked.flatMapM_ok]
  congr 1
  funext step
  rw [Segment.renderChecked_ok, Checked.ok_bind]
  cases Segment.render rig settings s.span look step with
  | ok effects => rfl
  | error e => rfl

@[simp]
theorem sequencedChecked_ok :
    p.sequencedChecked rig settings = .ok (p.sequenced rig settings) := by
  simp [sequencedChecked, sequenced]

@[simp]
theorem timelineChecked_ok :
    p.timelineChecked settings = fun own => .ok ⟨own.1.id,
      Timeline.finish settings (Timeline.fill settings own.1 p.songDurationMs own.2)⟩ := by
  funext own
  simp [timelineChecked]

@[simp]
theorem renderChecked_ok : p.renderChecked rig settings = .ok (p.render rig settings) := by
  simp only [renderChecked, render, sequencedChecked_ok, timelineChecked_ok, Checked.ok_bind,
    Checked.mapM_ok, Checked.pure_eq_ok, Checked.ite_ok]

/-- **Rendering never stops.** Whatever a plan, a rig and the settings are, no number is limited
to bounds that run backwards or drawn from a range that does, no list is asked for an item or
a stretch it does not have, and no whole number is divided by zero, neither when the built-in
groups of the rig are filled in nor on the way from the plan to the table of the show. Limits
of a dimmer that run backwards, an axis without travel, a centre outside its window and heads
that share an id make no difference. -/
theorem render_faultless :
    rig.fillGroupsChecked = .ok rig.fillGroups ∧
      p.tableChecked rig settings = .ok ((p.render rig settings).map (·.table rig)) := by
  refine ⟨rig.fillGroupsChecked_ok, ?_⟩
  rw [tableChecked, renderChecked_ok, Checked.ok_bind]
  cases p.render rig settings with
  | error e => rfl
  | ok s =>
    dsimp only
    rw [s.tableChecked_ok]
    rfl

/-- Two heads of one id sweep and flicker. Their pan has no travel and a centre outside its
window, and the limits of their dimmer run backwards. -/
theorem render_faultless_of_backward_limits :
    let p : Plan Float32 := {
      songMs := none
      sections := [⟨"verse", 0, 4000, none, none, none, [⟨"ALL", {
        movement := some ⟨"sweep_lr", "dramatic", none, none⟩
        dimmer := some ⟨"flicker", "dramatic", none⟩ }⟩]⟩]
      templates := []
      appearances := [] }
    let head : Fixture Float32 := { id := "MH1", pan := ⟨0, 250, 200, 100⟩, dimmer := ⟨200, 10⟩ }
    let rig : Rig Float32 := { fixtures := [head, head] }
    ¬rig.ids.Nodup ∧ head.dimmer.window? = none ∧
      rig.fillGroupsChecked = .ok rig.fillGroups ∧
        ∃ s, p.render rig .standard = .ok s ∧
          p.tableChecked rig .standard = .ok (.ok (s.table rig)) := by
  intro p head rig
  obtain ⟨s, hs⟩ : ∃ s, p.render rig .standard = .ok s := ⟨_, rfl⟩
  obtain ⟨groups, table⟩ := render_faultless p rig .standard
  rw [hs] at table
  exact ⟨by decide, rfl, groups, s, hs, table⟩

end Plan

end MovingLight
