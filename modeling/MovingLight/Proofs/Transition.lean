import MovingLight.Proofs.Timeline.Order
import MovingLight.Scalar.Single
import MovingLight.Transition

/-!
# Passages — an interval filled without a seam

`Timeline.Tiles a b` says that effects fill the interval from `a` to `b`: the
first starts at `a`, each next where the one before it ends, the last ends at
`b`, and each takes time. Every way across a passage but the snap does that to
its interval (`Passage.tiles_effects`).

The two ways with three phases share one reason. Where the phases start is
computed with rounding and cut off at the end of the passage, so all that is
known of the two points is their order (`Passage.splitPoints_le`), and any of
the three phases may be left out for want of time. A phase left out tiles the
empty interval it would have taken, so nothing else has to be known.

`Passage.effects_seamless` spells a tiling out: no millisecond of a passage is lost and
none is filled twice. It holds of every scalar, and so of every duration, every split and
every way of rounding.
-/

namespace MovingLight

variable {α : Type}

/-- **An anchor of levels**: its position and its light are levels, from `0` to `255`. -/
structure Anchor.Levels [Scalar α] (a : Anchor α) : Prop where
  pan : 0 ≤ a.pan ∧ a.pan ≤ 255
  tilt : 0 ≤ a.tilt ∧ a.tilt ≤ 255
  dimmer : 0 ≤ a.dimmer ∧ a.dimmer ≤ 255

namespace Timeline

/-! ## Tiling -/

/-- **Effects tile the interval from `a` to `b`.** -/
def Tiles (a b : Nat) : List (Effect α) → Prop
  | [] => a = b
  | e :: rest => e.startMs = a ∧ e.Lasts ∧ Tiles e.endMs b rest

theorem Tiles.append {a b c : Nat} {first second : List (Effect α)} (h : Tiles a b first)
    (h' : Tiles b c second) : Tiles a c (first ++ second) := by
  induction first generalizing a with
  | nil =>
    cases h
    exact h'
  | cons e rest ih =>
    obtain ⟨hstart, hlasts, htail⟩ := h
    exact ⟨hstart, hlasts, ih htail⟩

theorem Tiles.le {a b : Nat} {effects : List (Effect α)} (h : Tiles a b effects) : a ≤ b := by
  induction effects generalizing a with
  | nil => exact Nat.le_of_eq h
  | cons e rest ih =>
    obtain ⟨rfl, hlasts, htail⟩ := h
    exact Nat.le_trans (Nat.le_of_lt hlasts) (ih htail)

/-- No tile reaches outside the interval. -/
theorem Tiles.within {a b : Nat} {effects : List (Effect α)} (h : Tiles a b effects) :
    ∀ e ∈ effects, a ≤ e.startMs ∧ e.endMs ≤ b := by
  induction effects generalizing a with
  | nil => exact fun e he => absurd he List.not_mem_nil
  | cons e rest ih =>
    obtain ⟨rfl, hlasts, htail⟩ := h
    intro n hn
    rcases List.mem_cons.mp hn with rfl | hn
    · exact ⟨Nat.le_refl _, htail.le⟩
    · obtain ⟨hstart, hend⟩ := ih htail n hn
      exact ⟨Nat.le_trans (Nat.le_of_lt hlasts) hstart, hend⟩

theorem Tiles.inTurn {a b : Nat} {effects : List (Effect α)} (h : Tiles a b effects) :
    InTurn effects := by
  induction effects generalizing a with
  | nil => exact inTurn_nil
  | cons e rest ih =>
    obtain ⟨-, hlasts, htail⟩ := h
    exact inTurn_cons.mpr ⟨hlasts, fun n hn => (htail.within n hn).1, ih htail⟩

/-- At every time of the interval some tile is active. -/
theorem Tiles.exists_activeAt {a b time : Nat} {effects : List (Effect α)}
    (h : Tiles a b effects) (hle : a ≤ time) (hlt : time < b) :
    ∃ e ∈ effects, e.ActiveAt time := by
  induction effects generalizing a with
  | nil =>
    cases h
    exact absurd hlt (Nat.not_lt.mpr hle)
  | cons e rest ih =>
    obtain ⟨rfl, -, htail⟩ := h
    rcases Nat.lt_or_ge time e.endMs with hactive | hover
    · exact ⟨e, List.mem_cons_self, hle, hactive⟩
    · obtain ⟨n, hn, hactive⟩ := ih htail hover
      exact ⟨n, List.mem_cons_of_mem _ hn, hactive⟩

/-- The first tile starts where the interval does. -/
theorem Tiles.first {a b : Nat} {effects : List (Effect α)} (h : Tiles a b effects) :
    ∀ e ∈ effects.head?, e.startMs = a := by
  intro e he
  cases effects with
  | nil => cases he
  | cons n rest =>
    cases he
    exact h.1

/-- The last tile ends where the interval does. -/
theorem Tiles.last {a b : Nat} {effects : List (Effect α)} (h : Tiles a b effects) :
    ∀ e ∈ effects.getLast?, e.endMs = b := by
  induction effects generalizing a with
  | nil =>
    intro e he
    cases he
  | cons n rest ih =>
    obtain ⟨-, -, htail⟩ := h
    intro e he
    cases rest with
    | nil =>
      cases he
      exact htail
    | cons m rest =>
      rw [List.getLast?_cons_cons] at he
      exact ih htail e he

/-- Each tile starts where the one before it ends. -/
theorem Tiles.isChain {a b : Nat} {effects : List (Effect α)} (h : Tiles a b effects) :
    effects.IsChain fun e next => next.startMs = e.endMs := by
  induction effects generalizing a with
  | nil => exact .nil
  | cons e rest ih =>
    obtain ⟨-, -, htail⟩ := h
    cases rest with
    | nil => exact .singleton e
    | cons next rest => exact .cons_cons htail.1 (ih htail)

theorem Tiles.ne_nil {a b : Nat} {effects : List (Effect α)} (h : Tiles a b effects)
    (hlt : a < b) : effects ≠ [] := by
  rintro rfl
  exact Nat.ne_of_lt hlt h

end Timeline

namespace Passage

open Timeline

variable [Scalar α] {p : Passage α}

/-! ## Phases -/

/-- A phase tiles its interval, by nothing where that is empty. -/
theorem tiles_phase? {name : String} {a b : Nat} {source target : Anchor α} (h : a ≤ b) :
    Tiles a b (p.phase? name a b source target).toList := by
  unfold phase?
  split
  · rename_i hempty
    exact Nat.le_antisymm h hempty
  · rename_i hlt
    exact ⟨rfl, Nat.not_le.mp hlt, rfl⟩

/-- The phases start in order, none before the passage and none after it. -/
theorem splitPoints_le (h : p.startMs ≤ p.endMs) :
    p.startMs ≤ p.splitPoints.1 ∧ p.splitPoints.1 ≤ p.splitPoints.2 ∧
      p.splitPoints.2 ≤ p.endMs := by
  unfold splitPoints
  dsimp only
  omega

/-- Three phases that start in order tile the passage, whatever they do. -/
theorem tiles_phases {a b : Nat} {first second third : String}
    {source₁ target₁ source₂ target₂ source₃ target₃ : Anchor α}
    (h : p.startMs ≤ a ∧ a ≤ b ∧ b ≤ p.endMs) :
    Tiles p.startMs p.endMs
      ((p.phase? first p.startMs a source₁ target₁).toList ++
        (p.phase? second a b source₂ target₂).toList ++
        (p.phase? third b p.endMs source₃ target₃).toList) :=
  ((tiles_phase? h.1).append (tiles_phase? h.2.1)).append (tiles_phase? h.2.2)

/-- **Every way across but the snap tiles the passage.** -/
theorem tiles_effects {mode : TransitionMode} (hmode : mode ≠ .snap)
    (h : p.startMs ≤ p.endMs) : Tiles p.startMs p.endMs (p.effects mode) := by
  cases mode with
  | snap => exact absurd rfl hmode
  | crossfade => exact tiles_phase? h
  | fadeThroughBlack => exact tiles_phases (splitPoints_le h)
  | gapFill => exact tiles_phases (splitPoints_le h)

/-- **No way across but the snap loses a millisecond or fills one twice**, however the phases are
shared out: the effects all take time, the first starts with the passage, each next where the one
before it ends, the last ends with the passage, and at each time of it exactly one is active. -/
theorem effects_seamless {mode : TransitionMode} (hmode : mode ≠ .snap)
    (h : p.startMs < p.endMs) :
    let run := p.effects mode
    run ≠ [] ∧ (∀ e ∈ run, e.Lasts) ∧ (∀ e ∈ run.head?, e.startMs = p.startMs) ∧
      run.IsChain (fun e next => next.startMs = e.endMs) ∧
      (∀ e ∈ run.getLast?, e.endMs = p.endMs) ∧
      ∀ time, p.startMs ≤ time → time < p.endMs → ∃! e, e ∈ run ∧ e.ActiveAt time := by
  intro run
  have tiles : Tiles p.startMs p.endMs run := tiles_effects hmode (Nat.le_of_lt h)
  refine ⟨tiles.ne_nil h, tiles.inTurn.lasts, tiles.first, tiles.isChain, tiles.last, ?_⟩
  intro time hfrom hto
  obtain ⟨e, he, active⟩ := tiles.exists_activeAt hfrom hto
  refine ⟨e, ⟨he, active⟩, ?_⟩
  rintro n ⟨hn, active_too⟩
  exact tiles.inTurn.eq_of_activeAt hn he active_too active

/-- Three milliseconds in three phases. Of the three shares one is infinite, one negative and one
indefinite, so they give way to the standard split. -/
theorem effects_seamless_of_no_shares :
    let nothing : Anchor Float32 := ⟨0, 0, 0, none, none, none⟩
    let p : Passage Float32 := {
      fixtureId := "MH1"
      sectionId := "verse"
      gapKind := none
      startMs := 1000
      endMs := 1003
      source := nothing
      target := nothing
      home := nothing
      split := ⟨1 / 0, -1, Single.indefinite⟩
      shutterClosed := 0 }
    p.startMs < p.endMs ∧
      (p.effects .gapFill).map (fun e => (e.startMs, e.endMs)) =
        [(1000, 1001), (1001, 1002), (1002, 1003)] ∧
      ∀ time, 1000 ≤ time → time < 1003 → ∃! e, e ∈ p.effects .gapFill ∧ e.ActiveAt time := by
  intro nothing p
  have lasts : p.startMs < p.endMs := by decide
  have no_snap : TransitionMode.gapFill ≠ .snap := by decide
  obtain ⟨-, -, -, -, -, once⟩ := effects_seamless (p := p) no_snap lasts
  exact ⟨lasts, by decide +kernel, once⟩

/-! ## What the effects of a passage are -/

/-- The effect is for the head and the section of the passage and known to fill a gap. -/
def Owns (p : Passage α) (e : Effect α) : Prop :=
  e.fixtureId = p.fixtureId ∧
    e.boundary = { sectionId := p.sectionId, isGapFill := true, gapKind := p.gapKind }

/-- A phase is known by its name and runs straight from one anchor to the other. -/
theorem of_mem_phase? {name : String} {a b : Nat} {source target : Anchor α} {e : Effect α}
    (he : e ∈ (p.phase? name a b source target).toList) :
    e.label = "gap_fill:" ++ name ∧ e.channels = channels source target := by
  unfold phase? at he
  split at he
  · exact absurd he List.not_mem_nil
  · obtain rfl := List.mem_singleton.mp he
    exact ⟨rfl, rfl⟩

/-- What the phases of each way across are called. -/
def labels : TransitionMode → List String
  | .snap => []
  | .crossfade => ["gap_fill:crossfade"]
  | .fadeThroughBlack => ["gap_fill:fade_out", "gap_fill:blackout", "gap_fill:fade_in"]
  | .gapFill => ["gap_fill:ramp_to_home", "gap_fill:hold", "gap_fill:ramp_to_next"]

theorem phase?_sublist {name : String} {a b : Nat} {source target : Anchor α} :
    ((p.phase? name a b source target).toList.map (·.label)).Sublist ["gap_fill:" ++ name] := by
  unfold phase?
  split
  · exact List.nil_sublist _
  · exact List.Sublist.refl _

/-- **The effects of a passage are phases of the way across**, in order; some may be left out. -/
theorem effects_sublist (mode : TransitionMode) :
    ((p.effects mode).map (·.label)).Sublist (labels mode) := by
  cases mode with
  | snap => exact List.nil_sublist _
  | crossfade => exact phase?_sublist
  | fadeThroughBlack | gapFill =>
    simp only [effects, fadeThroughBlack, byWayOfHome, List.map_append]
    exact (phase?_sublist.append phase?_sublist).append phase?_sublist

/-- **What its effects are called tells the way across.** -/
theorem eq_of_labels {mode way : TransitionMode} (no_snap : way ≠ .snap)
    (called : (p.effects mode).map (·.label) = labels way) : mode = way := by
  have phases : (labels way).Sublist (labels mode) := called ▸ effects_sublist mode
  cases mode <;> cases way <;>
    first
    | rfl
    | exact absurd rfl no_snap
    | exact absurd phases (by decide)

theorem owns_of_mem_phase? {name : String} {a b : Nat} {source target : Anchor α} {e : Effect α}
    (he : e ∈ (p.phase? name a b source target).toList) : p.Owns e := by
  unfold phase? at he
  split at he
  · exact absurd he List.not_mem_nil
  · obtain rfl := List.mem_singleton.mp he
    exact ⟨rfl, rfl⟩

theorem owns_of_mem_effects {mode : TransitionMode} {e : Effect α} (he : e ∈ p.effects mode) :
    p.Owns e := by
  cases mode with
  | snap => exact absurd he List.not_mem_nil
  | crossfade => exact owns_of_mem_phase? he
  | fadeThroughBlack | gapFill =>
    simp only [effects, fadeThroughBlack, byWayOfHome, List.mem_append] at he
    rcases he with (he | he) | he <;> exact owns_of_mem_phase? he

end Passage

end MovingLight
