import MovingLight.Proofs.Timeline.Idle
import MovingLight.Proofs.Transition

/-!
# Neighbours — what stands next to a gap

Effects that tile an interval leave no room for others, so wherever effects take turns
and these are among them they stand next to one another (`Tiles.isInfix`).

The effects before and after a gap are looked up by time: the last that has ended when the
gap starts, the first that has not started when it ends. For a gap between two effects both
are found, and the gap reaches from the one to the other, whatever the length of the song
(`InTurn.exists_neighbours`). Were one of them further away, the time from the one to the
other would lie in a gap as well, and of two gaps neither holds the other.
-/

namespace MovingLight

namespace Timeline

variable {α : Type}

/-! ## Next to one another -/

/-- Effects that come next are the next ones: those that tile the time after an effect follow it in
whatever takes turns and holds them. -/
theorem Tiles.isPrefix {e : Effect α} {part rest : List (Effect α)} {b : Nat}
    (tiles : Tiles e.endMs b part) (turn : InTurn (e :: rest)) (there : ∀ n ∈ part, n ∈ rest) :
    part <+: rest := by
  induction part generalizing e rest with
  | nil => exact List.nil_prefix
  | cons n part ih =>
    obtain ⟨starts, lasts, tiles⟩ := tiles
    obtain ⟨-, later, turn⟩ := inTurn_cons.mp turn
    cases rest with
    | nil => exact absurd (there n List.mem_cons_self) List.not_mem_nil
    | cons m rest =>
      obtain ⟨m_lasts, after_m, -⟩ := inTurn_cons.mp turn
      -- whatever stood in between would have no time
      obtain rfl : n = m := by
        rcases List.mem_cons.mp (there n List.mem_cons_self) with same | behind
        · exact same
        · have late : m.endMs ≤ n.startMs := after_m n behind
          have early : e.endMs ≤ m.startMs := later m List.mem_cons_self
          unfold Effect.Lasts at m_lasts
          omega
      refine List.cons_prefix_cons.mpr ⟨rfl, ih tiles turn ?_⟩
      intro o ho
      rcases List.mem_cons.mp (there o (List.mem_cons_of_mem _ ho)) with rfl | behind
      · exact absurd (tiles.within o ho).1 (Nat.not_le.mpr lasts)
      · exact behind

/-- **Effects that tile an interval stand next to one another**, in whatever takes turns and holds
them. -/
theorem Tiles.isInfix {part whole : List (Effect α)} {a b : Nat} (tiles : Tiles a b part)
    (turn : InTurn whole) (there : ∀ n ∈ part, n ∈ whole) : part <:+: whole := by
  cases part with
  | nil => exact List.nil_infix
  | cons e part =>
    obtain ⟨-, lasts, tiles⟩ := tiles
    induction whole with
    | nil => exact absurd (there e List.mem_cons_self) List.not_mem_nil
    | cons m whole ih =>
      obtain ⟨m_lasts, after_m, turn'⟩ := inTurn_cons.mp turn
      -- what comes later than `m` is another effect
      have behind : ∀ n ∈ e :: part, m.endMs ≤ n.startMs → n ∈ whole := by
        intro n hn late
        rcases List.mem_cons.mp (there n hn) with rfl | hn
        · exact absurd late (Nat.not_le.mpr m_lasts)
        · exact hn
      by_cases first : e = m
      · subst first
        have follows : part <+: whole := by
          refine tiles.isPrefix turn fun n hn => ?_
          exact behind n (List.mem_cons_of_mem _ hn) (tiles.within n hn).1
        exact (List.cons_prefix_cons.mpr ⟨rfl, follows⟩).isInfix
      · have late : m.endMs ≤ e.startMs :=
          after_m e ((List.mem_cons.mp (there e List.mem_cons_self)).resolve_left first)
        refine List.infix_cons (ih turn' fun n hn => ?_)
        refine behind n hn ?_
        rcases List.mem_cons.mp hn with rfl | hn
        · exact late
        · exact Nat.le_trans late (Nat.le_trans (Nat.le_of_lt lasts) (tiles.within n hn).1)

/-! ## The neighbours of a gap -/

variable {laid : List (Effect α)} {g : Gap} {songMs minGapMs : Nat}

/-- The effect before a gap is the last to end before it. -/
theorem InTurn.endMs_le_of_before? (turn : InTurn laid) {p : Effect α}
    (hp : before? laid g = some p) {e : Effect α} (he : e ∈ laid) (ended : e.endMs ≤ g.startMs) :
    e.endMs ≤ p.endMs := by
  obtain ⟨-, later, earlier, split, pending⟩ := List.find?_eq_some_iff_append.mp hp
  have whole : laid = earlier.reverse ++ p :: later.reverse := by
    rw [← List.reverse_reverse laid, split]
    simp
  have turns := turn.turns
  rw [whole] at he turns
  rcases List.mem_append.mp he with he | he
  · have before : e.endMs ≤ p.startMs :=
      (List.pairwise_append.mp turns).2.2 e he p List.mem_cons_self
    have lasts : p.startMs < p.endMs := by
      refine turn.lasts p ?_
      rw [whole]
      exact List.mem_append_right _ List.mem_cons_self
    exact Nat.le_trans before (Nat.le_of_lt lasts)
  · rcases List.mem_cons.mp he with rfl | he
    · exact Nat.le_refl _
    · have still := pending e (List.mem_reverse.mp he)
      simp only [Bool.not_eq_true', decide_eq_false_iff_not] at still
      exact absurd ended still

/-- The effect after a gap is the first to start after it. -/
theorem InTurn.startMs_le_of_after? (turn : InTurn laid) {n : Effect α}
    (hn : after? laid g = some n) {e : Effect α} (he : e ∈ laid) (later : g.endMs ≤ e.startMs) :
    n.startMs ≤ e.startMs := by
  obtain ⟨-, earlier, others, rfl, started⟩ := List.find?_eq_some_iff_append.mp hn
  rcases List.mem_append.mp he with he | he
  · have still := started e he
    simp only [Bool.not_eq_true', decide_eq_false_iff_not] at still
    exact absurd later still
  · rcases List.mem_cons.mp he with rfl | he
    · exact Nat.le_refl _
    · have ordered := (List.pairwise_append.mp turn.queue.ordered).2.1
      exact List.rel_of_pairwise_cons ordered he

/-- Of two gaps, one around the other, the outer one is the inner one. -/
theorem InTurn.eq_of_gap_around (turn : InTurn laid) {g' : Gap}
    (hg : g ∈ gaps songMs minGapMs laid) (hg' : g' ∈ gaps songMs minGapMs laid)
    (hstart : g'.startMs ≤ g.startMs) (hend : g.endMs ≤ g'.endMs) : g' = g := by
  by_contra differ
  have long := (gapOf_one_of_mem turn.queue hg).long
  have symmetric : Std.Symm fun a b : Gap => a.endMs ≤ b.startMs ∨ b.endMs ≤ a.startMs :=
    ⟨fun _ _ => Or.symm⟩
  have pairwise : (gaps songMs minGapMs laid).Pairwise
      fun a b => a.endMs ≤ b.startMs ∨ b.endMs ≤ a.startMs :=
    (gaps_pairwise turn.lasts songMs minGapMs).imp Or.inl
  rcases pairwise.forall hg' hg differ with before | after <;> omega

/-- **A gap between two effects reaches from the end of the one to the start of the other**, and
these are the two it is filled between. -/
theorem InTurn.exists_neighbours (turn : InTurn laid) (hg : g ∈ gaps songMs minGapMs laid)
    (between : g.kind = .between) :
    ∃ p n, before? laid g = some p ∧ after? laid g = some n ∧ p ∈ laid ∧ n ∈ laid ∧
      p.endMs = g.startMs ∧ n.startMs = g.endMs := by
  have found := gapOf_one_of_mem turn.queue hg
  have not_start : before? laid g ≠ none := by
    rw [Ne, found.before?_eq_none_iff Nat.one_pos turn.lasts, ← found.kind_eq_start, between]
    exact nofun
  obtain ⟨p, hp⟩ := Option.ne_none_iff_exists'.mp not_start
  obtain ⟨mem_p, ended⟩ := of_before? hp
  have not_finish : after? laid g ≠ none := by
    rw [Ne, after?_eq_none_iff, ← found.kind_eq_finish (List.ne_nil_of_mem mem_p) turn.lasts,
      between]
    exact nofun
  obtain ⟨n, hn⟩ := Option.ne_none_iff_exists'.mp not_finish
  obtain ⟨mem_n, later⟩ := of_after? hn
  -- between the two nothing is active, so a gap reaches as far as they are apart
  have apart : ∀ e ∈ laid, e.endMs ≤ p.endMs ∨ n.startMs ≤ e.startMs := by
    intro e he
    rcases found.apart e he with before | after
    · exact Or.inl (turn.endMs_le_of_before? hp he before)
    · exact Or.inr (turn.startMs_le_of_after? hn he after)
  have long : p.endMs + max minGapMs 1 ≤ n.startMs := by
    have length := (gapOf_of_mem turn.queue (List.ne_nil_of_mem mem_p) hg).long
    omega
  obtain ⟨g', hg', hstart, hend⟩ :=
    exists_gap turn.lasts apart long (Or.inr ⟨n, mem_n, Nat.le_refl _⟩)
  obtain rfl : g' = g :=
    turn.eq_of_gap_around hg hg' (Nat.le_trans hstart ended) (Nat.le_trans later hend)
  exact ⟨p, n, hp, hn, mem_p, mem_n, Nat.le_antisymm ended hstart, Nat.le_antisymm hend later⟩

end Timeline

end MovingLight
