import MovingLight.Proofs.Timeline.Fill
import MovingLight.Scalar.Single

/-!
# The end of the song — how far gaps reach

A gap stops where the song does or where an effect starts. A song may be given a length
that is shorter than its effects, and only the last gap is held against that length: one
that stops at an effect reaches as far as the effect is away.

So gaps do not always lie inside the song (`not_gaps_inside_song`), and neither do the
effects that fill them. `gaps_inside_song` says when they do: a head must not come out of
rest to start an effect past the end of the song. It need not have finished by then; an
effect that follows another without a rest between them opens no gap, however late it is.
-/

namespace MovingLight

namespace Timeline

variable {α : Type} {effects : List (Effect α)} {songMs minGapMs : Nat}

/-- No effect is active for at least a number of milliseconds up to a time. -/
def RestsUntil (effects : List (Effect α)) (least time : Nat) : Prop :=
  ∃ a, a + least ≤ time ∧ Free effects a time

/-! ## Gaps past the end -/

/-- A rest up to the start of an effect lies in a gap, wherever the song ends. -/
theorem RestsUntil.exists_gap (queue : Queue effects) {e : Effect α} (he : e ∈ effects)
    (rests : RestsUntil effects (max minGapMs 1) e.startMs) :
    ∃ g ∈ gaps songMs minGapMs effects, e.startMs ≤ g.endMs := by
  obtain ⟨a, long, free⟩ := rests
  have before : a < e.startMs := Nat.lt_of_lt_of_le (by omega) long
  have apart : ∀ n ∈ effects, n.endMs ≤ a ∨ e.startMs ≤ n.startMs := by
    intro n hn
    exact free.over_or_later before hn (queue.lasts n hn)
  obtain ⟨g, hg, -, reaches⟩ :=
    Timeline.exists_gap queue.lasts apart long (Or.inr ⟨e, he, Nat.le_refl _⟩)
  exact ⟨g, hg, reaches⟩

/-- A gap that reaches past the end of the song is a rest up to the start of an effect. -/
theorem exists_restsUntil_of_gap (queue : Queue effects) {g : Gap}
    (hg : g ∈ gaps songMs minGapMs effects) (past : songMs < g.endMs) :
    ∃ e ∈ effects, e.startMs = g.endMs ∧ RestsUntil effects (max minGapMs 1) e.startMs := by
  obtain ⟨e, he, starts⟩ : ∃ e ∈ effects, e.startMs = g.endMs :=
    (gapOf_one_of_mem queue hg).upTo.resolve_left (Nat.ne_of_gt past)
  have found := gapOf_of_mem queue (List.ne_nil_of_mem he) hg
  refine ⟨e, he, starts, g.startMs, starts ▸ found.long, ?_⟩
  intro n hn time hfrom hto active
  obtain ⟨after_start, before_end⟩ := active
  rcases found.apart n hn with hover | hlater <;> omega

/-- **Gaps lie inside the song exactly if** no effect past its end comes after a rest. -/
theorem gaps_inside_iff (queue : Queue effects) :
    (∀ g ∈ gaps songMs minGapMs effects, g.endMs ≤ songMs) ↔
      ∀ e ∈ effects, songMs < e.startMs → ¬RestsUntil effects (max minGapMs 1) e.startMs := by
  constructor
  · intro inside e he past rests
    obtain ⟨g, hg, reaches⟩ : ∃ g ∈ gaps songMs minGapMs effects, e.startMs ≤ g.endMs :=
      rests.exists_gap queue he
    exact Nat.not_lt.mpr (Nat.le_trans reaches (inside g hg)) past
  · intro no_rest g hg
    by_contra past
    obtain ⟨e, he, starts, rests⟩ := exists_restsUntil_of_gap queue hg (Nat.not_le.mp past)
    exact no_rest e he (starts ▸ Nat.not_le.mp past) rests

/-! ## Filling past the end -/

/-- The last effect that fills a gap ends with it. -/
theorem Fills.exists_end {f : Fixture α} {g : Gap} {run : List (Effect α)} (h : Fills f g run) :
    ∃ e ∈ run, e.endMs = g.endMs := by
  obtain ⟨e, he⟩ := Option.ne_none_iff_exists'.mp (mt List.getLast?_eq_none_iff.mp h.nonempty)
  exact ⟨e, List.mem_of_getLast? he, h.tiles.last e he⟩

section Fill

variable [Scalar α] {settings : Settings α} {f : Fixture α}

/-- What fills a gap was not there before. -/
theorem InTurn.not_mem_of_fillGap {laid : List (Effect α)} (turn : InTurn laid) {g : Gap}
    (hg : g ∈ gaps songMs settings.minGapMs laid) {e : Effect α}
    (he : e ∈ fillGap settings f laid g) : e ∉ laid := by
  intro there
  have fills : Fills f g (fillGap settings f laid g) := turn.fills hg
  have lasts : e.startMs < e.endMs := fills.tiles.inTurn.lasts e he
  obtain ⟨after_start, before_end⟩ := fills.tiles.within e he
  rcases (gapOf_one_of_mem turn.queue hg).apart e there with hover | hlater <;> omega

/-- **Filling stays inside the song exactly if the gaps do.** -/
theorem fill_inside_iff {effects : List (Effect α)} :
    let laid := resolveOverlaps settings.curvePoints effects
    (∀ e ∈ fill settings f songMs effects, e ∈ laid ∨ e.endMs ≤ songMs) ↔
      ∀ g ∈ gaps songMs settings.minGapMs laid, g.endMs ≤ songMs := by
  intro laid
  have turn : InTurn laid := inTurn_resolveOverlaps _ _
  constructor
  · intro inside g hg
    obtain ⟨e, he, ends⟩ := (turn.fills (f := f) hg).exists_end
    have filled : e ∈ fill settings f songMs effects := mem_fill.mpr (Or.inr ⟨g, hg, he⟩)
    exact ends ▸ (inside e filled).resolve_left (turn.not_mem_of_fillGap hg he)
  · intro inside e he
    rcases mem_fill.mp he with there | ⟨g, hg, he⟩
    · exact Or.inl there
    · have within := ((turn.fills hg).tiles.within e he).2
      exact Or.inr (Nat.le_trans within (inside g hg))

end Fill

/-! ## Inside the song -/

/-- **When gaps, and what fills them, lie inside the song.** Every gap takes time. All of them end
with the song or before it exactly if no effect that starts later comes after a rest that is long
enough for a gap; and what filling puts in ends by then on the same condition, on what is left of
any effects once overlaps are resolved. -/
theorem gaps_inside_song [Scalar α] (queue : Queue effects) :
    (∀ g ∈ gaps songMs minGapMs effects, g.startMs < g.endMs) ∧
    ((∀ g ∈ gaps songMs minGapMs effects, g.endMs ≤ songMs) ↔
      ∀ e ∈ effects, songMs < e.startMs → ¬RestsUntil effects (max minGapMs 1) e.startMs) ∧
    ∀ (settings : Settings α) (f : Fixture α) (given : List (Effect α)),
      let laid := resolveOverlaps settings.curvePoints given
      (∀ e ∈ fill settings f songMs given, e ∈ laid ∨ e.endMs ≤ songMs) ↔
        ∀ e ∈ laid, songMs < e.startMs →
          ¬RestsUntil laid (max settings.minGapMs 1) e.startMs := by
  refine ⟨?_, gaps_inside_iff queue, ?_⟩
  · intro g hg
    exact (gapOf_one_of_mem queue hg).long
  · intro settings f given laid
    have turn : InTurn laid := inTurn_resolveOverlaps _ _
    exact fill_inside_iff.trans (gaps_inside_iff turn.queue)

/-- Two effects that run on past the end of the song, the second as soon as the first is over:
there is no gap after the first two seconds. -/
theorem gaps_inside_song_of_late_effects :
    let effect (startMs endMs : Nat) : Effect Float32 := {
      fixtureId := "MH1"
      startMs := startMs
      endMs := endMs
      channels := { pan := .hold 0, tilt := .hold 100, dimmer := .hold 255 }
      boundary := {}
      label := ""
      metadata := [] }
    let effects := [effect 2000 6000, effect 6000 9000]
    Queue effects ∧ ∀ g ∈ gaps 5000 100 effects, g.endMs ≤ 5000 := by
  intro effect effects
  have queue : Queue effects := by
    refine ⟨?_, ?_⟩ <;> decide
  refine ⟨queue, (gaps_inside_song queue).2.1.mpr ?_⟩
  intro e he past rests
  obtain ⟨a, long, free⟩ := rests
  have first : effect 2000 6000 ∈ effects := List.mem_cons_self
  have active : (effect 2000 6000).ActiveAt 5999 := by
    constructor <;> decide
  simp only [effects, List.mem_cons, List.not_mem_nil, or_false] at he
  rcases he with rfl | rfl
  · exact absurd past (by decide)
  · have before : a + 100 ≤ 6000 := long
    exact free _ first 5999 (by omega) (by decide) active

/-- **Gaps do not always lie inside the song.** Where one effect runs past its end and another comes
four seconds later, the whole song is covered and the rest between the two is a gap. -/
theorem not_gaps_inside_song :
    ¬∀ (songMs minGapMs : Nat) (effects : List (Effect Float32)), Queue effects →
      ∀ g ∈ gaps songMs minGapMs effects, g.startMs < g.endMs ∧ g.endMs ≤ songMs := by
  intro inside
  let effect (startMs endMs : Nat) (sectionId : String) : Effect Float32 := {
    fixtureId := "MH1"
    startMs := startMs
    endMs := endMs
    channels := { pan := .hold 0, tilt := .hold 100, dimmer := .hold 255 }
    boundary := { sectionId := sectionId }
    label := sectionId
    metadata := [] }
  let effects := [effect 0 6000 "verse", effect 10000 12000 "chorus"]
  have queue : Queue effects := by
    refine ⟨?_, ?_⟩ <;> decide
  have found : gaps 5000 100 effects = [⟨6000, 10000, "chorus", .between⟩] := by decide
  have gap : ⟨6000, 10000, "chorus", .between⟩ ∈ gaps 5000 100 effects :=
    found ▸ List.mem_singleton_self _
  exact absurd (inside 5000 100 effects queue _ gap).2 (by decide)

end Timeline

end MovingLight
