import MovingLight.Proofs.Timeline.Blend
import MovingLight.Proofs.Timeline.Fill
import MovingLight.Scalar.Single
import MovingLight.Show

/-!
# Shows — every head has a complete timeline

`HeadTimeline.Complete` is what a timeline promises whoever plays it: effects
of its own head, one at a time, that leave no rest of the song open which is
long enough to count as a gap. `Plan.render_timelines` says that rendering a
plan gives each head of the rig such a timeline, in stage order.

What a plan asks for does not enter. Sections and steps may overlap, coincide
or run past the end of the song, and several heads may share an id: dividing
the effects among the heads (`Plan.own_of_mem_divided`) hands each head some
effects of its own, and from there on each head is looked after for itself.
-/

namespace MovingLight

variable {α : Type}

/-- **A timeline is complete**: its effects are its head's own, take turns one start after the
other, and leave no longest idle interval of the song that a gap would be filled in. -/
structure HeadTimeline.Complete (songMs minGapMs : Nat) (t : HeadTimeline α) : Prop where
  own : ∀ e ∈ t.effects, e.fixtureId = t.fixtureId
  inTurn : Timeline.InTurn t.effects
  increasing : t.effects.Pairwise fun a b => a.startMs < b.startMs
  covered : ∀ a b, Timeline.Idle songMs t.effects a b → b - a < max minGapMs 1

section Head

variable [Scalar α]

/-- The timeline of one head, from the effects it is given. -/
def HeadTimeline.ofOwn (settings : Settings α) (songMs : Nat) (f : Fixture α)
    (own : List (Effect α)) : HeadTimeline α :=
  ⟨f.id, Timeline.finish settings (Timeline.fill settings f songMs own)⟩

/-- **A head that is given effects of its own gets a complete timeline.** Filling makes it
complete, and drawing and blending keep the frames that decide. -/
theorem HeadTimeline.complete_ofOwn (settings : Settings α) (songMs : Nat) {f : Fixture α}
    {own : List (Effect α)} (howns : ∀ e ∈ own, e.fixtureId = f.id) :
    (HeadTimeline.ofOwn settings songMs f own).Complete songMs settings.minGapMs := by
  have turn := Timeline.inTurn_fill settings f songMs own
  have same := Timeline.finish_frames settings (Timeline.fill settings f songMs own)
  rw [turn.sorted_eq] at same
  have finished_turn := turn.of_frames same
  refine ⟨fun e he => ?_, finished_turn, finished_turn.starts_lt, fun a b hidle => ?_⟩
  · obtain ⟨o, ho, frame_eq⟩ := Timeline.exists_frame same he
    have ids : o.fixtureId = e.fixtureId := congrArg Effect.Frame.fixtureId frame_eq
    rw [← ids]
    exact Timeline.own_fill settings f songMs howns o ho
  · have before := hidle.of_frames same.symm
    exact before.short turn.lasts (Timeline.gaps_fill settings f songMs own)

end Head

namespace Plan

/-! ## Dividing effects among heads -/

/-- Every head gets its share, in stage order, and be it empty. -/
theorem map_fst_divided (effects : List (Effect α)) (heads : List (Fixture α)) :
    (divided effects heads).map Prod.fst = heads := by
  induction heads generalizing effects with
  | nil => rfl
  | cons f rest ih => rw [divided, List.map_cons, ih]

/-- What a head gets is its own. -/
theorem own_of_mem_divided {effects own : List (Effect α)} {heads : List (Fixture α)}
    {f : Fixture α} (h : (f, own) ∈ divided effects heads) : ∀ e ∈ own, e.fixtureId = f.id := by
  induction heads generalizing effects with
  | nil => exact absurd h List.not_mem_nil
  | cons g rest ih =>
    rw [divided] at h
    rcases List.mem_cons.mp h with heq | h
    · obtain ⟨rfl, rfl⟩ := Prod.mk.inj heq
      exact fun e he => eq_of_beq (List.mem_filter.mp he).2
    · exact ih h

/-! ## Rendering -/

variable [Scalar α] {p : Plan α} {rig : Rig α} {settings : Settings α} {s : Show α}

/-- What rendering comes to: it takes a head and a usable section, and then nothing can fail. -/
theorem render_eq_ok : p.render rig settings = .ok s ↔
    rig.fixtures ≠ [] ∧ p.usableSections ≠ [] ∧
      s = {
        songMs := p.songDurationMs
        timelines := (divided (p.sequenced rig settings) rig.fixtures).map fun d =>
          HeadTimeline.ofOwn settings p.songDurationMs d.1 d.2
        skipped := p.unusableIds } := by
  unfold render
  simp only [List.isEmpty_iff]
  split
  · rename_i no_heads
    constructor
    · intro h
      cases h
    · rintro ⟨heads, -⟩
      exact absurd no_heads heads
  · rename_i heads
    split
    · rename_i none_usable
      constructor
      · intro h
        cases h
      · rintro ⟨-, usable, -⟩
        exact absurd none_usable usable
    · rename_i usable
      rw [Except.ok.injEq]
      exact ⟨fun h => ⟨heads, usable, h.symm⟩, fun h => h.2.2.symm⟩

/-- **Every head of the rig gets one complete timeline**, in stage order and under its own id. -/
theorem render_timelines (h : p.render rig settings = .ok s) :
    s.songMs = p.songDurationMs ∧
      s.timelines.map (·.fixtureId) = rig.fixtures.map (·.id) ∧
      ∀ t ∈ s.timelines, t.Complete s.songMs settings.minGapMs := by
  obtain ⟨-, -, rfl⟩ := render_eq_ok.mp h
  refine ⟨rfl, ?_, fun t ht => ?_⟩
  · have heads := map_fst_divided (p.sequenced rig settings) rig.fixtures
    calc
      _ = ((divided (p.sequenced rig settings) rig.fixtures).map Prod.fst).map (·.id) := by
        rw [List.map_map, List.map_map]
        rfl
      _ = rig.fixtures.map (·.id) := by rw [heads]
  · obtain ⟨⟨f, own⟩, hd, rfl⟩ := List.mem_map.mp ht
    exact HeadTimeline.complete_ofOwn settings p.songDurationMs (own_of_mem_divided hd)

/-- Where every gap counts, no head is ever idle. -/
theorem exists_activeAt_of_render (h : p.render rig settings = .ok s)
    (every : settings.minGapMs ≤ 1) {time : Nat} (inside : time < p.songDurationMs) :
    ∀ t ∈ s.timelines, ∃ e ∈ t.effects, e.ActiveAt time := by
  obtain ⟨-, -, rfl⟩ := render_eq_ok.mp h
  intro t ht
  obtain ⟨⟨f, own⟩, -, rfl⟩ := List.mem_map.mp ht
  have same := Timeline.finish_frames settings
    (Timeline.fill settings f p.songDurationMs own)
  rw [(Timeline.inTurn_fill settings f p.songDurationMs own).sorted_eq] at same
  obtain ⟨e, he, active⟩ :=
    Timeline.exists_activeAt_fill settings f p.songDurationMs own every inside
  obtain ⟨o, ho, starts, ends⟩ := Timeline.exists_span same.symm he
  refine ⟨o, ho, ?_⟩
  unfold Effect.ActiveAt at active ⊢
  rwa [starts, ends]

/-- Two sections that overlap, the second past the end of the song, on a rig of two heads. -/
theorem render_timelines_of_overlapping_sections :
    let sweep : Instruction Float32 :=
      ⟨"ALL", { movement := some ⟨"sweep_lr", "smooth", none, none⟩ }⟩
    let p : Plan Float32 := {
      songMs := some 5000
      sections := [
        ⟨"verse", 1000, 4000, none, none, none, [sweep]⟩,
        ⟨"chorus", 3000, 9000, none, none, none, [sweep]⟩]
      templates := []
      appearances := [] }
    let rig : Rig Float32 := .ofFixtures [{ id := "MH1" }, { id := "MH2" }]
    ∃ s, p.render rig .standard = .ok s ∧
      s.songMs = 5000 ∧
      s.timelines.map (·.fixtureId) = ["MH1", "MH2"] ∧
      ∀ t ∈ s.timelines, t.Complete 5000 100 := by
  intro sweep p rig
  obtain ⟨s, hs⟩ : ∃ s, p.render rig .standard = .ok s := ⟨_, rfl⟩
  obtain ⟨song, ids, complete⟩ := render_timelines hs
  refine ⟨s, hs, song, ids, fun t ht => ?_⟩
  have here := complete t ht
  rw [song] at here
  exact here

end Plan

end MovingLight
