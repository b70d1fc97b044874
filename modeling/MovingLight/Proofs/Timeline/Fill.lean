import MovingLight.Proofs.Timeline.Gap
import MovingLight.Proofs.Timeline.Overlap
import MovingLight.Proofs.Transition
import MovingLight.Timeline.Fill

/-!
# Filling — nothing lost, nothing left open, nothing to do twice

A filled timeline is made of pieces: the effects that were left once overlaps
were resolved, and for each gap between them a run of effects that tiles it
(`Timeline.Fills`). No two pieces meet, so putting them in order gives effects
that take turns. `fill_keeps_and_fills` says so of `fill` for every head, song
and settings.

A filled timeline has no gaps (`gaps_fill`). What is idle in it was idle before,
and it is long enough to lie inside a gap that was found then; but that gap has
been tiled. Filling it again therefore finds nothing to resolve and nothing to
fill: `fill_fill`.

None of this depends on how phases are rounded, on the shares they are given or
on the least length of a gap.
-/

namespace MovingLight

variable {α : Type} [Scalar α]

namespace Timeline

/-! ## Filling one gap -/

/-- **Effects fill a gap of a head**: they tile it, belong to the head, and are marked as filling
a gap of its kind. -/
structure Fills (f : Fixture α) (g : Gap) (run : List (Effect α)) : Prop where
  nonempty : run ≠ []
  tiles : Tiles g.startMs g.endMs run
  own : ∀ e ∈ run, e.fixtureId = f.id
  marked : ∀ e ∈ run, e.boundary.isGapFill = true ∧ e.boundary.gapKind = some g.kind

/-- Every state of a gap has a way across it, which is never a snap. -/
theorem crossing?_classify (home : Anchor α) (g : Gap) (before after : Option (Effect α))
    (largeGapMs : Nat) :
    ∃ mode source target, mode ≠ .snap ∧
      crossing? home (.classify g before after largeGapMs) before after =
        some (mode, source, target, (GapState.classify g before after largeGapMs).kind) := by
  cases before with
  | none => exact ⟨_, _, _, TransitionMode.noConfusion, rfl⟩
  | some p =>
    cases after with
    | none => exact ⟨_, _, _, TransitionMode.noConfusion, rfl⟩
    | some n =>
      unfold GapState.classify
      dsimp only
      split
      · exact ⟨_, _, _, TransitionMode.noConfusion, rfl⟩
      · refine ⟨smallGapMode p n, _, _, ?_, rfl⟩
        unfold smallGapMode
        split <;> exact TransitionMode.noConfusion

/-- A way across a gap leads from home to home, straight, or from one neighbour to the other. -/
theorem crossing?_eq_some {home source target : Anchor α} {state : GapState}
    {before after : Option (Effect α)} {mode : TransitionMode} {kind : GapKind}
    (h : crossing? home state before after = some (mode, source, target, kind)) :
    (mode = .crossfade ∧ source = home ∧ target = home ∧ kind ≠ .between) ∨
      ∃ p n, before = some p ∧ after = some n ∧ kind = .between ∧
        source = .endOf p.channels ∧ target = .startOf n.channels := by
  unfold crossing? at h
  split at h
  · cases h
    exact Or.inl ⟨rfl, rfl, rfl, GapKind.noConfusion⟩
  · cases h
    exact Or.inl ⟨rfl, rfl, rfl, GapKind.noConfusion⟩
  · cases h
    exact Or.inr ⟨_, _, rfl, rfl, rfl, rfl, rfl⟩
  · cases h
    exact Or.inr ⟨_, _, rfl, rfl, rfl, rfl, rfl⟩
  · cases h

variable {settings : Settings α} {f : Fixture α} {songMs : Nat}

/-- The passage across a gap of a head. -/
def passageAcross (settings : Settings α) (f : Fixture α) (g : Gap) (source target : Anchor α)
    (kind : GapKind) : Passage α where
  fixtureId := f.id
  sectionId := g.sectionId
  gapKind := some kind
  startMs := g.startMs
  endMs := g.endMs
  source := source
  target := target
  home := f.darkHome settings
  split := settings.gapSplit
  shutterClosed := settings.shutterClosed

/-- A gap is filled along the way across it. -/
theorem fillGap_eq {effects : List (Effect α)} {g : Gap} {mode : TransitionMode}
    {source target : Anchor α} {kind : GapKind}
    (h : crossing? (f.darkHome settings)
      (.classify g (before? effects g) (after? effects g) settings.largeGapMs)
      (before? effects g) (after? effects g) = some (mode, source, target, kind)) :
    fillGap settings f effects g = (passageAcross settings f g source target kind).effects mode := by
  unfold fillGap
  dsimp only
  rw [h]
  rfl

/-- **No gap is passed over.** -/
theorem fills_fillGap {effects : List (Effect α)} {least : Nat} {g : Gap}
    (h : GapOf effects songMs least g) (hpos : 0 < least) (hl : ∀ e ∈ effects, e.Lasts) :
    Fills f g (fillGap settings f effects g) := by
  obtain ⟨mode, source, target, hmode, hcross⟩ := crossing?_classify (f.darkHome settings) g
    (before? effects g) (after? effects g) settings.largeGapMs
  rw [h.classify_kind hpos hl] at hcross
  have hlt : g.startMs < g.endMs := Nat.lt_of_lt_of_le (Nat.lt_add_of_pos_right hpos) h.long
  rw [fillGap_eq hcross]
  have tiles : Tiles g.startMs g.endMs
      ((passageAcross settings f g source target g.kind).effects mode) :=
    Passage.tiles_effects (p := passageAcross settings f g source target g.kind) hmode
      (Nat.le_of_lt hlt)
  refine ⟨tiles.ne_nil hlt, tiles, fun e he => (Passage.owns_of_mem_effects he).1, fun e he => ?_⟩
  rw [(Passage.owns_of_mem_effects he).2]
  exact ⟨rfl, rfl⟩

/-! ## The pieces of a filled timeline -/

/-- Effects that take turns and those that fill their gaps, not yet in order. -/
def pieces (settings : Settings α) (f : Fixture α) (songMs : Nat) (laid : List (Effect α)) :
    List (Effect α) :=
  laid ++ (gaps songMs settings.minGapMs laid).flatMap (fillGap settings f laid)

section Pieces

variable {laid : List (Effect α)} (h : InTurn laid)

include h

theorem InTurn.fills {g : Gap} (hg : g ∈ gaps songMs settings.minGapMs laid) :
    Fills f g (fillGap settings f laid g) :=
  fills_fillGap (gapOf_one_of_mem h.queue hg) Nat.one_pos h.lasts

theorem lasts_of_mem_pieces : ∀ e ∈ pieces settings f songMs laid, e.Lasts := by
  intro e he
  rcases List.mem_append.mp he with he | he
  · exact h.lasts e he
  · obtain ⟨g, hg, he⟩ := List.mem_flatMap.mp he
    exact (h.fills hg).tiles.inTurn.lasts e he

/-- **No two pieces meet.** -/
theorem pieces_pairwise : (pieces settings f songMs laid).Pairwise Effect.Apart := by
  refine List.pairwise_append.mpr ⟨h.pairwise_apart, List.pairwise_flatMap.mpr ⟨?_, ?_⟩, ?_⟩
  · intro g hg
    exact (h.fills hg).tiles.inTurn.pairwise_apart
  · -- two runs keep apart because their gaps do
    refine (gaps_pairwise h.lasts _ _).imp_of_mem fun {g g'} hg hg' hgg' a ha b hb => ?_
    have ha' := ((h.fills hg).tiles.within a ha).2
    have hb' := ((h.fills hg').tiles.within b hb).1
    exact Or.inl (Nat.le_trans ha' (Nat.le_trans hgg' hb'))
  · -- an effect keeps apart from a run because it is not active in its gap
    intro a ha b hb
    obtain ⟨g, hg, hb⟩ := List.mem_flatMap.mp hb
    obtain ⟨hstart, hend⟩ := (h.fills hg).tiles.within b hb
    rcases (gapOf_one_of_mem h.queue hg).apart a ha with hover | hlater
    · exact Or.inl (Nat.le_trans hover hstart)
    · exact Or.inr (Nat.le_trans hend hlater)

theorem inTurn_sorted_pieces : InTurn (sorted (pieces settings f songMs laid)) :=
  inTurn_sorted (lasts_of_mem_pieces h) (pieces_pairwise h)

/-- Whatever comes after a time among the pieces, the song or an effect came after it before. -/
theorem bound_of_mem_pieces {e : Effect α} (he : e ∈ pieces settings f songMs laid) :
    e.startMs ≤ songMs ∨ ∃ n ∈ laid, e.startMs ≤ n.startMs := by
  rcases List.mem_append.mp he with he | he
  · exact Or.inr ⟨e, he, Nat.le_refl _⟩
  · obtain ⟨g, hg, he⟩ := List.mem_flatMap.mp he
    have lasts := (h.fills hg).tiles.inTurn.lasts e he
    have hle := Nat.le_trans (Nat.le_of_lt lasts) ((h.fills hg).tiles.within e he).2
    rcases (gapOf_one_of_mem h.queue hg).upTo with hsong | ⟨n, hn, hend⟩
    · exact Or.inl (hsong ▸ hle)
    · exact Or.inr ⟨n, hn, hend ▸ hle⟩

/-- What is free among the pieces and long enough for a gap lies inside a gap found before. -/
theorem exists_gap_of_gap_pieces {g : Gap}
    (hg : g ∈ gaps songMs settings.minGapMs (sorted (pieces settings f songMs laid))) :
    ∃ g' ∈ gaps songMs settings.minGapMs laid, g'.startMs ≤ g.startMs ∧ g.endMs ≤ g'.endMs := by
  have queue : Queue (sorted (pieces settings f songMs laid)) := (inTurn_sorted_pieces h).queue
  by_cases hne : sorted (pieces settings f songMs laid) = []
  · have hlaid : laid = [] := List.eq_nil_iff_forall_not_mem.mpr fun e he => by
      have mem : e ∈ sorted (pieces settings f songMs laid) :=
        mem_sorted.mpr (List.mem_append_left _ he)
      rw [hne] at mem
      exact List.not_mem_nil mem
    rw [hne, ← hlaid] at hg
    exact ⟨g, hg, Nat.le_refl _, Nat.le_refl _⟩
  · have found := gapOf_of_mem queue hne hg
    refine exists_gap h.lasts (fun e he => ?_) found.long ?_
    · exact found.apart e (mem_sorted.mpr (List.mem_append_left _ he))
    · rcases found.upTo with hsong | ⟨e, he, hend⟩
      · exact Or.inl (Nat.le_of_eq hsong)
      · rw [← hend]
        exact bound_of_mem_pieces h (mem_sorted.mp he)

/-- **The pieces leave no gap.** -/
theorem gaps_sorted_pieces :
    gaps songMs settings.minGapMs (sorted (pieces settings f songMs laid)) = [] := by
  refine List.eq_nil_iff_forall_not_mem.mpr fun g hg => ?_
  have found := gapOf_one_of_mem (inTurn_sorted_pieces h).queue hg
  obtain ⟨g', hg', hstart, hend⟩ := exists_gap_of_gap_pieces h hg
  have hlt : g.startMs < g'.endMs := Nat.lt_of_lt_of_le found.long hend
  obtain ⟨e, he, hactive⟩ := (h.fills (f := f) hg').tiles.exists_activeAt hstart hlt
  have mem : e ∈ sorted (pieces settings f songMs laid) :=
    mem_sorted.mpr (List.mem_append_right _ (List.mem_flatMap.mpr ⟨g', hg', he⟩))
  have hlong := found.long
  unfold Effect.ActiveAt at hactive
  rcases found.apart e mem with hover | hlater <;> omega

end Pieces

/-! ## Filling a timeline -/

variable (settings f songMs)

/-- Filling puts the pieces in order, whether or not there is a gap. -/
theorem fill_eq_sorted (effects : List (Effect α)) :
    fill settings f songMs effects =
      sorted (pieces settings f songMs (resolveOverlaps settings.curvePoints effects)) := by
  unfold fill
  dsimp only
  split
  · rename_i hnone
    rw [List.isEmpty_iff] at hnone
    rw [pieces, hnone, List.flatMap_nil, List.append_nil]
    exact (inTurn_resolveOverlaps _ _).sorted_eq.symm
  · rfl

/-- **The effects of a filled timeline take turns.** -/
theorem inTurn_fill (effects : List (Effect α)) : InTurn (fill settings f songMs effects) := by
  rw [fill_eq_sorted]
  exact inTurn_sorted_pieces (inTurn_resolveOverlaps _ _)

/-- **A filled timeline has no gap.** -/
theorem gaps_fill (effects : List (Effect α)) :
    gaps songMs settings.minGapMs (fill settings f songMs effects) = [] := by
  rw [fill_eq_sorted]
  exact gaps_sorted_pieces (inTurn_resolveOverlaps _ _)

/-- Where every gap counts, some effect of a filled timeline is active at any time of the song. -/
theorem exists_activeAt_fill (effects : List (Effect α)) (every : settings.minGapMs ≤ 1)
    {time : Nat} (inside : time < songMs) :
    ∃ e ∈ fill settings f songMs effects, e.ActiveAt time := by
  refine Classical.byContradiction fun idle => ?_
  have free : Free (fill settings f songMs effects) time (time + 1) := by
    intro e he t from_time before active
    obtain rfl : t = time := by omega
    exact idle ⟨e, he, active⟩
  have turn := inTurn_fill settings f songMs effects
  have apart := fun e he => free.over_or_later (Nat.lt_succ_self time) he (turn.lasts e he)
  have long : time + max settings.minGapMs 1 ≤ time + 1 := by omega
  obtain ⟨g, hg, -⟩ := exists_gap turn.lasts apart long (Or.inl inside)
  rw [gaps_fill] at hg
  exact List.not_mem_nil hg

variable {settings f songMs} in
/-- An effect of a filled timeline was there once overlaps were resolved, or fills a gap. -/
theorem mem_fill {effects : List (Effect α)} {e : Effect α} :
    e ∈ fill settings f songMs effects ↔
      e ∈ resolveOverlaps settings.curvePoints effects ∨
      ∃ g ∈ gaps songMs settings.minGapMs (resolveOverlaps settings.curvePoints effects),
        e ∈ fillGap settings f (resolveOverlaps settings.curvePoints effects) g := by
  rw [fill_eq_sorted, mem_sorted, pieces, List.mem_append, List.mem_flatMap]

/-- A timeline filled for a head holds effects of that head alone. -/
theorem own_fill {effects : List (Effect α)} (own : ∀ e ∈ effects, e.fixtureId = f.id) :
    ∀ e ∈ fill settings f songMs effects, e.fixtureId = f.id := by
  intro e he
  rcases mem_fill.mp he with he | ⟨g, hg, he⟩
  · exact own_resolveOverlaps own e he
  · exact ((inTurn_resolveOverlaps _ _).fills hg).own e he

/-- **Filling keeps every effect and fills every gap, and does nothing else.** What is left once
overlaps are resolved stands in the filled timeline unchanged and in order; each gap is tiled by a
run of effects for the head, marked with the kind of the gap; nothing else is there; and the
effects take turns. -/
theorem fill_keeps_and_fills (effects : List (Effect α)) :
    let laid := resolveOverlaps settings.curvePoints effects
    let found := gaps songMs settings.minGapMs laid
    let filled := fill settings f songMs effects
    ∃ run : Gap → List (Effect α),
      (∀ g ∈ found, Fills f g (run g)) ∧
      filled.Perm (laid ++ found.flatMap run) ∧
      laid.Sublist filled ∧
      filled.Pairwise (fun a b => a.startMs < b.startMs) ∧
      InTurn filled := by
  intro laid found filled
  have turn : InTurn laid := inTurn_resolveOverlaps _ _
  have turn_filled : InTurn filled := inTurn_fill settings f songMs effects
  have filled_eq : filled = sorted (pieces settings f songMs laid) :=
    fill_eq_sorted settings f songMs effects
  refine ⟨fillGap settings f laid, fun g hg => turn.fills hg, ?_, ?_, turn_filled.starts_lt,
    turn_filled⟩
  · rw [filled_eq]
    exact sorted_perm _
  · rw [filled_eq]
    exact sublist_sorted turn.queue.ordered (List.sublist_append_left _ _)

/-- **Filling twice is filling once**, effect for effect and channel for channel. -/
theorem fill_fill (effects : List (Effect α)) :
    fill settings f songMs (fill settings f songMs effects) =
      fill settings f songMs effects := by
  have turn := inTurn_fill settings f songMs effects
  calc fill settings f songMs (fill settings f songMs effects)
      = sorted (pieces settings f songMs (fill settings f songMs effects)) := by
        rw [fill_eq_sorted, turn.resolveOverlaps_eq]
    _ = sorted (fill settings f songMs effects) := by
        rw [pieces, gaps_fill, List.flatMap_nil, List.append_nil]
    _ = fill settings f songMs effects := turn.sorted_eq

end Timeline

end MovingLight
