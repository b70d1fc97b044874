import MovingLight.Proofs.Timeline.Order
import MovingLight.Timeline.Gap

/-!
# Gaps — where nothing is active

`Timeline.Free` says that no effect is active in an interval and
`Timeline.Idle` picks the longest such intervals of a song. Neither mentions
how gaps are found, and neither needs the effects to take turns.

Two statements tie `gaps` to them. What is found is free (`Timeline.GapOf`,
`gapOf_of_mem`): an interval of some length between what is over and what has
not started, whose kind is the one its neighbours give it. And nothing is
missed (`exists_gap`): an interval without an active effect that is long enough
lies inside a gap, as long as the song or another effect comes after it. A gap
may lie past the end of the song, so the second statement has to allow for both.

The effects before and after a gap are looked up again when it is filled, and
its state is decided from them alone. `classify_kind` says that this second
reading agrees with the first.
-/

namespace MovingLight

variable {α : Type}

/-- The kind of gap a state is treated as. -/
def GapState.kind : GapState → GapKind
  | .sequenceStart => .start
  | .sequenceEnd => .finish
  | .large => .between
  | .small => .between

namespace Timeline

/-! ## Intervals without an active effect -/

/-- No effect is active from `a` up to `b`. -/
def Free (effects : List (Effect α)) (a b : Nat) : Prop :=
  ∀ e ∈ effects, ∀ time, a ≤ time → time < b → ¬ e.ActiveAt time

/-- **A longest interval of a song without an active effect.** -/
structure Idle (songMs : Nat) (effects : List (Effect α)) (a b : Nat) : Prop where
  lt : a < b
  inside : b ≤ songMs
  free : Free effects a b
  longest : ∀ a' b', a' ≤ a → b ≤ b' → b' ≤ songMs → Free effects a' b' → a' = a ∧ b' = b

/-- In an interval without an active effect every effect is over or still to come. -/
theorem Free.over_or_later {effects : List (Effect α)} {a b : Nat} (h : Free effects a b)
    (hab : a < b) {e : Effect α} (he : e ∈ effects) (hl : e.Lasts) :
    e.endMs ≤ a ∨ b ≤ e.startMs := by
  unfold Effect.Lasts at hl
  rcases Nat.lt_or_ge e.startMs b with hlt | hge
  · left
    have away := h e he (max a e.startMs) (Nat.le_max_left _ _) (Nat.max_lt.mpr ⟨hab, hlt⟩)
    unfold Effect.ActiveAt at away
    omega
  · exact Or.inr hge

/-- The kind of an interval, as the effects around it give it. -/
def kindBetween (effects : List (Effect α)) (a b : Nat) : GapKind :=
  if ∀ e ∈ effects, a ≤ e.startMs then .start
  else if ∀ e ∈ effects, e.startMs < b then .finish
  else .between

/-- **What a gap is**: an interval of at least some length between what is over and what is
still to come, up to a start or the end of the song, of the kind its neighbours give it. -/
structure GapOf (effects : List (Effect α)) (songMs least : Nat) (g : Gap) : Prop where
  long : g.startMs + least ≤ g.endMs
  apart : ∀ e ∈ effects, e.endMs ≤ g.startMs ∨ g.endMs ≤ e.startMs
  upTo : g.endMs = songMs ∨ ∃ e ∈ effects, e.startMs = g.endMs
  kind : g.kind = kindBetween effects g.startMs g.endMs

/-! ## What is found -/

/-- How far the search has come: the effects it has passed are over. -/
structure Passed (passed : List (Effect α)) (time : Nat) (previous : Option (Effect α)) :
    Prop where
  past : ∀ e ∈ passed, e.endMs ≤ time
  seen : previous.isSome ↔ passed ≠ []

theorem Passed.step {passed : List (Effect α)} {time : Nat} {previous : Option (Effect α)}
    (h : Passed passed time previous) (e : Effect α) :
    Passed (passed ++ [e]) (max time e.endMs) (some e) := by
  refine ⟨fun n hn => ?_, ?_⟩
  · rcases List.mem_append.mp hn with hn | hn
    · exact Nat.le_trans (h.past n hn) (Nat.le_max_left _ _)
    · obtain rfl := List.mem_singleton.mp hn
      exact Nat.le_max_right _ _
  · simp only [Option.isSome_some, true_iff]
    exact List.append_ne_nil_of_right_ne_nil _ (List.cons_ne_nil _ _)

/-- Something has passed: the interval from here on does not open the timeline. -/
theorem Passed.not_first {passed rest : List (Effect α)} {time : Nat}
    {previous : Option (Effect α)} (h : Passed passed time previous) (hne : passed ≠ [])
    (hl : ∀ e ∈ passed ++ rest, e.Lasts) : ¬ ∀ e ∈ passed ++ rest, time ≤ e.startMs := by
  intro hall
  obtain ⟨e, he⟩ := List.exists_mem_of_ne_nil passed hne
  have mem : e ∈ passed ++ rest := List.mem_append_left _ he
  exact Nat.not_lt.mpr (Nat.le_trans (h.past e he) (hall e mem)) (hl e mem)

/-- The interval up to the next effect. -/
theorem Passed.gapOf_next {passed rest : List (Effect α)} {time songMs least : Nat}
    {previous : Option (Effect α)} {e : Effect α} (h : Passed passed time previous)
    (queue : Queue (passed ++ e :: rest)) (hlong : time + least ≤ e.startMs) :
    GapOf (passed ++ e :: rest) songMs least
      ⟨time, e.startMs, e.boundary.sectionId, if previous.isSome then .between else .start⟩ := by
  have later : ∀ n ∈ e :: rest, e.startMs ≤ n.startMs := by
    intro n hn
    rcases List.mem_cons.mp hn with rfl | hn
    · exact Nat.le_refl _
    · exact List.rel_of_pairwise_cons (List.pairwise_append.mp queue.ordered).2.1 hn
  have mem : e ∈ passed ++ e :: rest := List.mem_append_right _ List.mem_cons_self
  refine ⟨hlong, fun n hn => ?_, Or.inr ⟨e, mem, rfl⟩, ?_⟩
  · rcases List.mem_append.mp hn with hn | hn
    · exact Or.inl (h.past n hn)
    · exact Or.inr (later n hn)
  · unfold kindBetween
    dsimp only
    by_cases hp : passed = []
    · have unseen : ¬ previous.isSome = true := fun hs => h.seen.mp hs hp
      subst hp
      rw [if_neg unseen, if_pos]
      exact fun n hn => Nat.le_trans (Nat.le_of_add_right_le hlong) (later n hn)
    · rw [if_pos (h.seen.mpr hp), if_neg (h.not_first hp queue.lasts), if_neg]
      exact fun hall => Nat.lt_irrefl _ (hall e mem)

/-- The interval from the last end to the end of the song. -/
theorem Passed.gapOf_song {passed : List (Effect α)} {time songMs least : Nat}
    {previous : Option (Effect α)} {sectionId : String} (h : Passed passed time previous)
    (hl : ∀ e ∈ passed, e.Lasts) (hne : passed ≠ []) (hlong : time + least ≤ songMs) :
    GapOf passed songMs least ⟨time, songMs, sectionId, .finish⟩ := by
  refine ⟨hlong, fun n hn => Or.inl (h.past n hn), Or.inl rfl, ?_⟩
  have first : ¬ ∀ e ∈ passed, time ≤ e.startMs := by
    rw [← List.append_nil passed] at hl ⊢
    exact h.not_first hne hl
  unfold kindBetween
  dsimp only
  rw [if_neg first, if_pos]
  intro e he
  exact Nat.lt_of_lt_of_le (hl e he) (Nat.le_trans (h.past e he) (Nat.le_of_add_right_le hlong))

theorem gapOf_of_mem_gapsFrom {passed rest : List (Effect α)} {time songMs least : Nat}
    {previous : Option (Effect α)} (h : Passed passed time previous)
    (queue : Queue (passed ++ rest)) (hne : passed ++ rest ≠ []) {g : Gap}
    (hg : g ∈ gapsFrom songMs least time previous rest) :
    GapOf (passed ++ rest) songMs least g := by
  induction rest generalizing passed time previous with
  | nil =>
    rw [List.append_nil] at queue hne ⊢
    rw [gapsFrom] at hg
    split at hg
    · rename_i hlong
      obtain rfl := List.mem_singleton.mp hg
      exact h.gapOf_song queue.lasts hne hlong
    · exact absurd hg List.not_mem_nil
  | cons e rest ih =>
    have shift : passed ++ e :: rest = (passed ++ [e]) ++ rest := by
      rw [List.append_assoc, List.singleton_append]
    have later : g ∈ gapsFrom songMs least (max time e.endMs) (some e) rest →
        GapOf (passed ++ e :: rest) songMs least g := by
      intro hg
      rw [shift] at queue hne ⊢
      exact ih (h.step e) queue hne hg
    rw [gapsFrom] at hg
    split at hg
    · rename_i hlong
      rcases List.mem_cons.mp hg with rfl | hg
      · exact h.gapOf_next queue hlong
      · exact later hg
    · exact later hg

theorem passed_nil : Passed ([] : List (Effect α)) 0 none :=
  ⟨fun _ he => absurd he List.not_mem_nil, by simp⟩

/-- **A gap of some effects is free and long enough.** -/
theorem gapOf_of_mem {effects : List (Effect α)} {songMs minGapMs : Nat} (queue : Queue effects)
    (hne : effects ≠ []) {g : Gap} (hg : g ∈ gaps songMs minGapMs effects) :
    GapOf effects songMs (max minGapMs 1) g := by
  rw [gaps, if_neg (by rwa [List.isEmpty_iff])] at hg
  exact gapOf_of_mem_gapsFrom passed_nil queue hne hg

/-- A gap is never empty, even where a head has no effects and the song is shorter than the
least gap. -/
theorem gapOf_one_of_mem {effects : List (Effect α)} {songMs minGapMs : Nat}
    (queue : Queue effects) {g : Gap} (hg : g ∈ gaps songMs minGapMs effects) :
    GapOf effects songMs 1 g := by
  by_cases hne : effects = []
  · subst hne
    rw [gaps, if_pos List.isEmpty_nil] at hg
    split at hg
    · exact absurd hg List.not_mem_nil
    · rename_i hsong
      obtain rfl := List.mem_singleton.mp hg
      have long : 0 + 1 ≤ songMs := Nat.pos_of_ne_zero hsong
      refine ⟨long, fun e he => absurd he List.not_mem_nil, Or.inl rfl, ?_⟩
      exact (if_pos fun e he => absurd he List.not_mem_nil).symm
  · have h := gapOf_of_mem queue hne hg
    exact { h with long := Nat.le_trans (Nat.add_le_add_left (Nat.le_max_right _ _) _) h.long }

/-! ## Gaps are apart -/

theorem le_of_mem_gapsFrom {effects : List (Effect α)} {time songMs least : Nat}
    {previous : Option (Effect α)} {g : Gap}
    (hg : g ∈ gapsFrom songMs least time previous effects) : time ≤ g.startMs := by
  induction effects generalizing time previous with
  | nil =>
    rw [gapsFrom] at hg
    split at hg
    · obtain rfl := List.mem_singleton.mp hg
      exact Nat.le_refl _
    · exact absurd hg List.not_mem_nil
  | cons e rest ih =>
    have later : g ∈ gapsFrom songMs least (max time e.endMs) (some e) rest → time ≤ g.startMs :=
      fun hg => Nat.le_trans (Nat.le_max_left _ _) (ih hg)
    rw [gapsFrom] at hg
    split at hg
    · rcases List.mem_cons.mp hg with rfl | hg
      · exact Nat.le_refl _
      · exact later hg
    · exact later hg

theorem gapsFrom_pairwise {effects : List (Effect α)} (hl : ∀ e ∈ effects, e.Lasts)
    (songMs least time : Nat) (previous : Option (Effect α)) :
    (gapsFrom songMs least time previous effects).Pairwise fun g h => g.endMs ≤ h.startMs := by
  induction effects generalizing time previous with
  | nil =>
    rw [gapsFrom]
    split
    · exact List.pairwise_singleton _ _
    · exact .nil
  | cons e rest ih =>
    have rest_apart := ih (fun n hn => hl n (List.mem_cons_of_mem _ hn)) (max time e.endMs) (some e)
    rw [gapsFrom]
    split
    · refine List.pairwise_cons.mpr ⟨fun g hg => ?_, rest_apart⟩
      have after_e := Nat.le_trans (Nat.le_max_right time e.endMs) (le_of_mem_gapsFrom hg)
      exact Nat.le_trans (Nat.le_of_lt (hl e List.mem_cons_self)) after_e
    · exact rest_apart

/-- **Each gap is over before the next begins.** -/
theorem gaps_pairwise {effects : List (Effect α)} (hl : ∀ e ∈ effects, e.Lasts)
    (songMs minGapMs : Nat) :
    (gaps songMs minGapMs effects).Pairwise fun g h => g.endMs ≤ h.startMs := by
  unfold gaps
  split
  · split
    · exact .nil
    · exact List.pairwise_singleton _ _
  · exact gapsFrom_pairwise hl _ _ _ _

/-! ## Nothing is missed -/

theorem exists_gapsFrom {effects : List (Effect α)} {a b time songMs least : Nat}
    {previous : Option (Effect α)} (hl : ∀ e ∈ effects, e.Lasts)
    (hfree : ∀ e ∈ effects, e.endMs ≤ a ∨ b ≤ e.startMs) (hlong : a + least ≤ b)
    (hbound : b ≤ songMs ∨ ∃ e ∈ effects, b ≤ e.startMs) (htime : time ≤ a) :
    ∃ g ∈ gapsFrom songMs least time previous effects, g.startMs ≤ a ∧ b ≤ g.endMs := by
  induction effects generalizing time previous with
  | nil =>
    rcases hbound with hsong | ⟨_, he, _⟩
    · rw [gapsFrom, if_pos (by omega)]
      exact ⟨_, List.mem_singleton_self _, htime, hsong⟩
    · exact absurd he List.not_mem_nil
  | cons e rest ih =>
    rw [gapsFrom]
    rcases hfree e List.mem_cons_self with hover | hlater
    · have bound : b ≤ songMs ∨ ∃ n ∈ rest, b ≤ n.startMs := by
        refine hbound.imp_right fun ⟨n, hn, hb⟩ => ?_
        rcases List.mem_cons.mp hn with rfl | hn
        · have := hl n List.mem_cons_self
          unfold Effect.Lasts at this
          omega
        · exact ⟨n, hn, hb⟩
      obtain ⟨g, hg, hs⟩ : ∃ g ∈ gapsFrom songMs least (max time e.endMs) (some e) rest,
          g.startMs ≤ a ∧ b ≤ g.endMs :=
        ih (fun n hn => hl n (List.mem_cons_of_mem _ hn))
          (fun n hn => hfree n (List.mem_cons_of_mem _ hn)) bound (Nat.max_le.mpr ⟨htime, hover⟩)
      refine ⟨g, ?_, hs⟩
      split
      · exact List.mem_cons_of_mem _ hg
      · exact hg
    · rw [if_pos (by omega)]
      exact ⟨_, List.mem_cons_self, htime, hlater⟩

/-- **An interval without an active effect lies inside a gap**, if it is long enough and the
song or another effect comes after it. -/
theorem exists_gap {effects : List (Effect α)} {a b songMs minGapMs : Nat}
    (hl : ∀ e ∈ effects, e.Lasts) (hfree : ∀ e ∈ effects, e.endMs ≤ a ∨ b ≤ e.startMs)
    (hlong : a + max minGapMs 1 ≤ b) (hbound : b ≤ songMs ∨ ∃ e ∈ effects, b ≤ e.startMs) :
    ∃ g ∈ gaps songMs minGapMs effects, g.startMs ≤ a ∧ b ≤ g.endMs := by
  unfold gaps
  split
  · rename_i hempty
    rw [List.isEmpty_iff] at hempty
    subst hempty
    have hsong : b ≤ songMs := by
      refine hbound.resolve_right ?_
      rintro ⟨_, he, _⟩
      exact absurd he List.not_mem_nil
    rw [if_neg (by omega)]
    exact ⟨_, List.mem_singleton_self _, Nat.zero_le _, hsong⟩
  · exact exists_gapsFrom hl hfree hlong hbound (Nat.zero_le _)

/-- Where there are no gaps, what is idle is too short for one. -/
theorem Idle.short {effects : List (Effect α)} {songMs minGapMs a b : Nat}
    (h : Idle songMs effects a b) (hl : ∀ e ∈ effects, e.Lasts)
    (none_left : gaps songMs minGapMs effects = []) : b - a < max minGapMs 1 := by
  refine Nat.lt_of_not_le fun hlong => ?_
  have hfree : ∀ e ∈ effects, e.endMs ≤ a ∨ b ≤ e.startMs := fun e he =>
    h.free.over_or_later h.lt he (hl e he)
  have long : a + max minGapMs 1 ≤ b := by
    have hab := h.lt
    omega
  obtain ⟨g, hg, -⟩ := exists_gap hl hfree long (Or.inl h.inside)
  rw [none_left] at hg
  exact List.not_mem_nil hg

/-! ## The neighbours of a gap -/

theorem of_before? {effects : List (Effect α)} {g : Gap} {p : Effect α}
    (hp : before? effects g = some p) : p ∈ effects ∧ p.endMs ≤ g.startMs := by
  have ended := List.find?_some hp
  exact ⟨List.mem_reverse.mp (List.mem_of_find?_eq_some hp), of_decide_eq_true ended⟩

theorem of_after? {effects : List (Effect α)} {g : Gap} {n : Effect α}
    (hn : after? effects g = some n) : n ∈ effects ∧ g.endMs ≤ n.startMs := by
  have later := List.find?_some hn
  exact ⟨List.mem_of_find?_eq_some hn, of_decide_eq_true later⟩

theorem before?_eq_none_iff {effects : List (Effect α)} {g : Gap} :
    before? effects g = none ↔ ∀ e ∈ effects, g.startMs < e.endMs := by
  unfold before?
  simp only [List.find?_eq_none, List.mem_reverse, decide_eq_true_eq, Nat.not_le]

theorem after?_eq_none_iff {effects : List (Effect α)} {g : Gap} :
    after? effects g = none ↔ ∀ e ∈ effects, e.startMs < g.endMs := by
  unfold after?
  simp only [List.find?_eq_none, decide_eq_true_eq, Nat.not_le]

/-- Nothing is over before a gap exactly if nothing starts before it. -/
theorem GapOf.before?_eq_none_iff {effects : List (Effect α)} {songMs least : Nat} {g : Gap}
    (h : GapOf effects songMs least g) (hpos : 0 < least) (hl : ∀ e ∈ effects, e.Lasts) :
    before? effects g = none ↔ ∀ e ∈ effects, g.startMs ≤ e.startMs := by
  rw [Timeline.before?_eq_none_iff]
  refine forall₂_congr fun e he => ?_
  have hlong := h.long
  have hlasts := hl e he
  unfold Effect.Lasts at hlasts
  rcases h.apart e he with hover | hlater <;> omega

/-- **Both readings of a gap agree**: the state its neighbours give it is that of its kind. -/
theorem GapOf.classify_kind {effects : List (Effect α)} {songMs least : Nat} {g : Gap}
    (h : GapOf effects songMs least g) (hpos : 0 < least) (hl : ∀ e ∈ effects, e.Lasts)
    (largeGapMs : Nat) :
    (GapState.classify g (before? effects g) (after? effects g) largeGapMs).kind = g.kind := by
  rw [h.kind, kindBetween]
  cases hb : before? effects g with
  | none => exact (if_pos ((h.before?_eq_none_iff hpos hl).mp hb)).symm
  | some p =>
    rw [if_neg fun hall => Option.some_ne_none p (hb ▸ (h.before?_eq_none_iff hpos hl).mpr hall)]
    cases ha : after? effects g with
    | none => exact (if_pos (after?_eq_none_iff.mp ha)).symm
    | some n =>
      rw [if_neg fun hall => Option.some_ne_none n (ha ▸ after?_eq_none_iff.mpr hall)]
      unfold GapState.classify
      dsimp only
      split <;> rfl

end Timeline

end MovingLight
