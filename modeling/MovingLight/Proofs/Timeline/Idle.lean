import Mathlib.Data.List.Chain
import MovingLight.Proofs.Timeline.Gap

/-!
# Idle intervals — the gaps of a queue are all of them

`gaps` walks the effects of a head once and keeps a single time: up to there everything
is active or has been listed. For a queue, in which effects may overlap, hold others
inside them or end out of order, what it lists are exactly the longest idle intervals of
the song that are long enough (`mem_gaps_iff_idle`).

That a gap cannot be made longer is decided at its two ends. It stops where an effect
starts or the song is over (`GapOf.upTo`), and it begins where an effect ends or the song
starts: the time the search has come to is always one of these (`Reached`), since it is
the latest end of all it has passed. That no idle interval is left out is `exists_gap`,
which finds a gap around it, and of two idle intervals of which one holds the other the
longest is the only one.
-/

namespace MovingLight

/-- What neither opens nor closes a timeline lies between two effects. -/
theorem GapKind.eq_between_iff {k : GapKind} : k = .between ↔ k ≠ .start ∧ k ≠ .finish := by
  cases k <;> decide

namespace Timeline

variable {α : Type} {effects : List (Effect α)} {songMs minGapMs : Nat}

/-! ## Where a gap begins -/

/-- The search has come to the end of an effect it has passed, or is still at the start. -/
def Reached (passed : List (Effect α)) (time : Nat) : Prop :=
  time = 0 ∨ ∃ e ∈ passed, e.endMs = time

theorem Reached.append {passed : List (Effect α)} {time : Nat} (h : Reached passed time)
    (rest : List (Effect α)) : Reached (passed ++ rest) time := by
  rcases h with start | ⟨n, hn, ends⟩
  · exact Or.inl start
  · exact Or.inr ⟨n, List.mem_append_left _ hn, ends⟩

theorem Reached.step {passed : List (Effect α)} {time : Nat} (h : Reached passed time)
    (e : Effect α) : Reached (passed ++ [e]) (max time e.endMs) := by
  rcases Nat.le_total time e.endMs with later | earlier
  · rw [Nat.max_eq_right later]
    exact Or.inr ⟨e, List.mem_append_right _ (List.mem_singleton_self e), rfl⟩
  · rw [Nat.max_eq_left earlier]
    exact h.append [e]

theorem reached_of_mem_gapsFrom {passed rest : List (Effect α)} {time least : Nat}
    {previous : Option (Effect α)} (h : Reached passed time) {g : Gap}
    (hg : g ∈ gapsFrom songMs least time previous rest) :
    Reached (passed ++ rest) g.startMs := by
  induction rest generalizing passed time previous with
  | nil =>
    rw [gapsFrom] at hg
    split at hg
    · obtain rfl := List.mem_singleton.mp hg
      rwa [List.append_nil]
    · exact absurd hg List.not_mem_nil
  | cons e rest ih =>
    have later : g ∈ gapsFrom songMs least (max time e.endMs) (some e) rest →
        Reached (passed ++ e :: rest) g.startMs := by
      intro hg
      rw [← List.singleton_append, ← List.append_assoc]
      exact ih (h.step e) hg
    rw [gapsFrom] at hg
    split at hg
    · rcases List.mem_cons.mp hg with rfl | hg
      · exact h.append (e :: rest)
      · exact later hg
    · exact later hg

/-- **A gap begins where an effect ends, or with the song.** -/
theorem reached_of_mem_gaps (hne : effects ≠ []) {g : Gap}
    (hg : g ∈ gaps songMs minGapMs effects) : Reached effects g.startMs := by
  rw [gaps, if_neg (by rwa [List.isEmpty_iff])] at hg
  have start : Reached ([] : List (Effect α)) 0 := Or.inl rfl
  exact reached_of_mem_gapsFrom start hg

/-! ## Gaps are idle -/

/-- What lies between effects that are over and effects still to come is free. -/
theorem GapOf.free {least : Nat} {g : Gap} (h : GapOf effects songMs least g) :
    Free effects g.startMs g.endMs := by
  intro e he time hfrom hto active
  unfold Effect.ActiveAt at active
  rcases h.apart e he with hover | hlater <;> omega

/-- A gap of a song that outlasts the effects lies inside it. -/
theorem GapOf.inside {least : Nat} {g : Gap} (h : GapOf effects songMs least g)
    (hl : ∀ e ∈ effects, e.Lasts) (hsong : ∀ e ∈ effects, e.endMs ≤ songMs) :
    g.endMs ≤ songMs := by
  rcases h.upTo with song | ⟨e, he, starts⟩
  · exact Nat.le_of_eq song
  · exact starts ▸ Nat.le_trans (Nat.le_of_lt (hl e he)) (hsong e he)

/-- **A gap cannot be made longer**: an effect ends where it begins and starts where it stops,
except at the two ends of the song. -/
theorem GapOf.idle {least : Nat} {g : Gap} (h : GapOf effects songMs least g) (hpos : 0 < least)
    (hfrom : Reached effects g.startMs) (hl : ∀ e ∈ effects, e.Lasts)
    (hsong : ∀ e ∈ effects, e.endMs ≤ songMs) : Idle songMs effects g.startMs g.endMs := by
  have lt : g.startMs < g.endMs := Nat.lt_of_lt_of_le (Nat.lt_add_of_pos_right hpos) h.long
  refine ⟨lt, h.inside hl hsong, h.free, fun a b ha hb song free => ⟨?_, ?_⟩⟩
  · rcases hfrom with start | ⟨e, he, ends⟩
    · omega
    · have lasts : e.startMs < e.endMs := hl e he
      rcases free.over_or_later (by omega) he lasts with hover | hlater <;> omega
  · rcases h.upTo with finish | ⟨e, he, starts⟩
    · omega
    · have lasts : e.startMs < e.endMs := hl e he
      rcases free.over_or_later (by omega) he lasts with hover | hlater <;> omega

/-- Of two idle intervals, one around the other, the inner one is the outer one. -/
theorem Idle.eq_of_around {a b a' b' : Nat} (h : Idle songMs effects a b)
    (around : Idle songMs effects a' b') (ha : a' ≤ a) (hb : b ≤ b') : a' = a ∧ b' = b :=
  h.longest a' b' ha hb around.inside around.free

/-! ## The kind of a gap -/

variable {least : Nat} {g : Gap}

/-- A gap opens the timeline exactly if nothing starts before it. -/
theorem GapOf.kind_eq_start (h : GapOf effects songMs least g) :
    g.kind = .start ↔ ∀ e ∈ effects, g.startMs ≤ e.startMs := by
  rw [h.kind, kindBetween]
  split
  · rename_i first
    exact iff_of_true rfl first
  · rename_i first
    refine iff_of_false ?_ first
    split <;> exact GapKind.noConfusion

/-- A gap closes the timeline exactly if nothing starts at its end or after it: where nothing does,
what there is has started before it. -/
theorem GapOf.kind_eq_finish (h : GapOf effects songMs least g) (hne : effects ≠ [])
    (hl : ∀ e ∈ effects, e.Lasts) :
    g.kind = .finish ↔ ∀ e ∈ effects, e.startMs < g.endMs := by
  rw [h.kind, kindBetween]
  split
  · rename_i first
    refine iff_of_false GapKind.noConfusion fun last => ?_
    obtain ⟨e, he⟩ := List.exists_mem_of_ne_nil effects hne
    have lasts : e.startMs < e.endMs := hl e he
    rcases h.apart e he with hover | hlater
    · exact Nat.not_lt.mpr (first e he) (Nat.lt_of_lt_of_le lasts hover)
    · exact Nat.not_lt.mpr hlater (last e he)
  · split
    · rename_i last
      exact iff_of_true rfl last
    · rename_i last
      exact iff_of_false GapKind.noConfusion last

/-! ## All idle intervals -/

/-- **The gaps of a queue are the longest idle intervals of its song that are long enough**, listed
one after another, each of the kind that the effects around it give it. -/
theorem mem_gaps_iff_idle (queue : Queue effects) (hne : effects ≠ [])
    (hsong : ∀ e ∈ effects, e.endMs ≤ songMs) :
    (∀ a b, (∃ g ∈ gaps songMs minGapMs effects, g.startMs = a ∧ g.endMs = b) ↔
      Idle songMs effects a b ∧ max minGapMs 1 ≤ b - a) ∧
    (gaps songMs minGapMs effects).Pairwise
      (fun g h => g.startMs < h.startMs ∧ g.endMs ≤ h.startMs) ∧
    ∀ g ∈ gaps songMs minGapMs effects,
      (g.kind = .start ↔ ∀ e ∈ effects, g.startMs ≤ e.startMs) ∧
      (g.kind = .finish ↔ ∀ e ∈ effects, e.startMs < g.endMs) ∧
      (g.kind = .between ↔
        (∃ e ∈ effects, e.startMs < g.startMs) ∧ ∃ e ∈ effects, g.endMs ≤ e.startMs) := by
  have least_pos : 0 < max minGapMs 1 := Nat.lt_of_lt_of_le Nat.zero_lt_one (Nat.le_max_right _ _)
  have gap : ∀ g ∈ gaps songMs minGapMs effects, GapOf effects songMs (max minGapMs 1) g :=
    fun g hg => gapOf_of_mem queue hne hg
  have idle : ∀ g ∈ gaps songMs minGapMs effects, Idle songMs effects g.startMs g.endMs :=
    fun g hg => (gap g hg).idle least_pos (reached_of_mem_gaps hne hg) queue.lasts hsong
  refine ⟨fun a b => ⟨?_, ?_⟩, ?_, fun g hg => ?_⟩
  · rintro ⟨g, hg, rfl, rfl⟩
    exact ⟨idle g hg, Nat.le_sub_of_add_le' (gap g hg).long⟩
  · rintro ⟨longest, hlong⟩
    have apart : ∀ e ∈ effects, e.endMs ≤ a ∨ b ≤ e.startMs := fun e he =>
      longest.free.over_or_later longest.lt he (queue.lasts e he)
    have long : a + max minGapMs 1 ≤ b := Nat.add_le_of_le_sub' (Nat.le_of_lt longest.lt) hlong
    obtain ⟨g, hg, ha, hb⟩ := exists_gap queue.lasts apart long (Or.inl longest.inside)
    exact ⟨g, hg, longest.eq_of_around (idle g hg) ha hb⟩
  · refine (gaps_pairwise queue.lasts songMs minGapMs).imp_of_mem fun {g h} hg _ before => ?_
    exact ⟨Nat.lt_of_lt_of_le (idle g hg).lt before, before⟩
  · have opens := (gap g hg).kind_eq_start
    have closes := (gap g hg).kind_eq_finish hne queue.lasts
    refine ⟨opens, closes, ?_⟩
    rw [GapKind.eq_between_iff, Ne, Ne, opens, closes]
    push Not
    rfl

/-- Three effects, one inside another, and a song that goes on after them. Nothing is idle after the
inner one, and the three milliseconds before the last one are too short. -/
theorem mem_gaps_iff_idle_of_nested :
    let effect (startMs endMs : Nat) : Effect Float32 := {
      fixtureId := "MH1"
      startMs := startMs
      endMs := endMs
      channels := { pan := .hold 128, tilt := .hold 128, dimmer := .hold 255 }
      boundary := {}
      label := ""
      metadata := [] }
    let effects := [effect 20 60, effect 30 40, effect 63 80]
    Queue effects ∧ (∀ e ∈ effects, e.endMs ≤ 100) ∧
      gaps 100 5 effects = [⟨0, 20, "", .start⟩, ⟨80, 100, "", .finish⟩] ∧
      ∀ a b, (∃ g ∈ gaps 100 5 effects, g.startMs = a ∧ g.endMs = b) ↔
        Idle 100 effects a b ∧ max 5 1 ≤ b - a := by
  intro effect effects
  have queue : Queue effects := by
    refine ⟨?_, ?_⟩ <;> decide
  have song : ∀ e ∈ effects, e.endMs ≤ 100 := by decide
  exact ⟨queue, song, by decide, (mem_gaps_iff_idle queue (List.cons_ne_nil _ _) song).1⟩

end Timeline

end MovingLight
