import MovingLight.Proofs.Timeline.Order

/-!
# Overlaps — what is left when later effects win

`Timeline.Resolves` says what a list of overlapping effects comes to, and says
it of the list as it was given: one effect for each start that an effect with
duration has, in increasing order; of all effects with that start the one given
last; ended by the next of these starts where that comes first, and then with
its channels cut by the share of its ORIGINAL length that is left.

`Timeline.resolves_iff` is the main statement: `resolveOverlaps` returns that
list and no other list fits the description.

The program works on a stack instead. It takes back what it laid out and cuts
what it keeps, while more effects come in, so an effect might be cut twice, or
cut and then taken back. The proof goes by way of `Timeline.settled`, which
walks the sorted effects and looks one effect ahead. `foldl_lay` is the step
that makes the two agree: below its top the stack is finished business, because
everything there is over before the top starts.
-/

namespace MovingLight

variable {α : Type}

namespace Timeline

/-! ## The description -/

/-- The effect given last among those of one start that take time. -/
def lastAt? (effects : List (Effect α)) (startMs : Nat) : Option (Effect α) :=
  (effects.filter fun e => e.startMs = startMs ∧ e.Lasts).getLast?

/-- The first start after a time among the effects that take time. -/
def nextStart? (effects : List (Effect α)) (time : Nat) : Option Nat :=
  ((effects.filter fun e => e.Lasts ∧ time < e.startMs).map (·.startMs)).min?

end Timeline

/-- The effect as the next start leaves it: ended there if it would pass it, its
channels cut by the share of its length that is left, and otherwise untouched. -/
def Effect.endedBy [Scalar α] (count : Nat) (next : Option Nat) (e : Effect α) : Effect α :=
  match next with
  | none => e
  | some time =>
    if time < e.endMs then
      { e with
        endMs := time
        channels := e.channels.truncated
          (((time - e.startMs : Nat) : α) / ((e.endMs - e.startMs : Nat) : α)) count }
    else e

/-- **What overlapping effects come to.** -/
structure Timeline.Resolves [Scalar α] (count : Nat) (effects laid : List (Effect α)) :
    Prop where
  increasing : laid.Pairwise fun a b => a.startMs < b.startMs
  /-- The starts are those of the effects that take time. -/
  starts : ∀ startMs, (∃ e ∈ laid, e.startMs = startMs) ↔
    ∃ e ∈ effects, e.startMs = startMs ∧ e.Lasts
  /-- Each is the last given of its start, as the next start leaves it. -/
  kept : ∀ e ∈ laid, ∃ original, Timeline.lastAt? effects e.startMs = some original ∧
    e = original.endedBy count (Timeline.nextStart? effects e.startMs)

namespace Timeline

theorem mem_of_lastAt? {e : Effect α} {effects : List (Effect α)} {startMs : Nat}
    (h : lastAt? effects startMs = some e) : e ∈ effects :=
  (List.mem_filter.mp (List.mem_of_getLast? h)).1

/-! ## Reading the description of a list with one effect more -/

theorem lastAt?_cons_of_some {e o : Effect α} {rest : List (Effect α)} {startMs : Nat}
    (h : lastAt? rest startMs = some o) : lastAt? (e :: rest) startMs = some o := by
  unfold lastAt? at h ⊢
  rw [List.filter_cons]
  split
  · rw [List.getLast?_cons, h, Option.getD_some]
  · exact h

/-- An effect that starts before all others is the last of its start. -/
theorem lastAt?_cons_self {e : Effect α} {rest : List (Effect α)} (he : e.Lasts)
    (later : ∀ n ∈ rest, e.startMs < n.startMs) : lastAt? (e :: rest) e.startMs = some e := by
  have none_left : rest.filter (fun n => n.startMs = e.startMs ∧ n.Lasts) = [] := by
    refine List.filter_eq_nil_iff.mpr fun n hn hp => ?_
    exact Nat.ne_of_gt (later n hn) (of_decide_eq_true hp).1
  have counts : decide (e.startMs = e.startMs ∧ e.Lasts) = true := decide_eq_true ⟨rfl, he⟩
  unfold lastAt?
  rw [List.filter_cons, if_pos counts, none_left]
  rfl

theorem nextStart?_cons_of_le {e : Effect α} {rest : List (Effect α)} {time : Nat}
    (h : e.startMs ≤ time) : nextStart? (e :: rest) time = nextStart? rest time := by
  unfold nextStart?
  rw [List.filter_cons_of_neg]
  rw [decide_eq_true_eq]
  exact fun hp => Nat.not_lt.mpr h hp.2

theorem nextStart?_eq_some {effects : List (Effect α)} {time next : Nat} :
    nextStart? effects time = some next ↔
      (∃ e ∈ effects, e.Lasts ∧ time < e.startMs ∧ e.startMs = next) ∧
      ∀ e ∈ effects, e.Lasts → time < e.startMs → next ≤ e.startMs := by
  unfold nextStart?
  rw [List.min?_eq_some_iff]
  simp only [List.mem_map, List.mem_filter, decide_eq_true_eq, and_assoc]
  refine and_congr_right fun _ => ⟨fun h e he hl ht => ?_, ?_⟩
  · exact h e.startMs ⟨e, he, hl, ht, rfl⟩
  · rintro h _ ⟨e, he, hl, ht, rfl⟩
    exact h e he hl ht

/-- The first start after a time depends on which effects there are, not on their order. -/
theorem nextStart?_congr {effects others : List (Effect α)}
    (h : ∀ e : Effect α, e.Lasts → (e ∈ effects ↔ e ∈ others)) (time : Nat) :
    nextStart? effects time = nextStart? others time := by
  refine Option.ext fun next => ?_
  rw [nextStart?_eq_some, nextStart?_eq_some]
  constructor
  · rintro ⟨⟨e, he, hl, hrest⟩, hmin⟩
    exact ⟨⟨e, (h e hl).mp he, hl, hrest⟩, fun n hn hl => hmin n ((h n hl).mpr hn) hl⟩
  · rintro ⟨⟨e, he, hl, hrest⟩, hmin⟩
    exact ⟨⟨e, (h e hl).mpr he, hl, hrest⟩, fun n hn hl => hmin n ((h n hl).mp hn) hl⟩

end Timeline

/-! ## An effect as the next start leaves it -/

section EndedBy

variable [Scalar α] {count time : Nat} {next : Option Nat} {e : Effect α}

/-- Only the end and the channels of an effect are ever cut. -/
theorem Effect.exists_endedBy_eq (count : Nat) (next : Option Nat) (e : Effect α) :
    ∃ endMs channels, e.endedBy count next = { e with endMs, channels } := by
  unfold Effect.endedBy
  split
  · exact ⟨_, _, rfl⟩
  · split <;> exact ⟨_, _, rfl⟩

@[simp] theorem Effect.endedBy_startMs : (e.endedBy count next).startMs = e.startMs := by
  obtain ⟨endMs, channels, h⟩ := e.exists_endedBy_eq count next
  rw [h]

@[simp] theorem Effect.endedBy_fixtureId : (e.endedBy count next).fixtureId = e.fixtureId := by
  obtain ⟨endMs, channels, h⟩ := e.exists_endedBy_eq count next
  rw [h]

theorem Effect.endedBy_endMs : (e.endedBy count (some time)).endMs = min e.endMs time := by
  unfold Effect.endedBy
  dsimp only
  split
  · exact (Nat.min_eq_right (Nat.le_of_lt ‹_›)).symm
  · exact (Nat.min_eq_left (Nat.not_lt.mp ‹_›)).symm

theorem Effect.endedBy_of_le (h : e.endMs ≤ time) : e.endedBy count (some time) = e :=
  if_neg (Nat.not_lt.mpr h)

theorem Effect.Lasts.endedBy (he : e.Lasts) (h : e.startMs < time) :
    (e.endedBy count (some time)).Lasts := by
  unfold Effect.Lasts at he ⊢
  rw [Effect.endedBy_startMs, Effect.endedBy_endMs]
  omega

end EndedBy

namespace Timeline

/-! ## Looking one effect ahead -/

section Settled

variable [Scalar α] {count : Nat}

/-- Effects in order of their start with what overlaps taken away: each is left
out for the next if that starts with it, and else ended by the next. -/
def settled (count : Nat) : List (Effect α) → List (Effect α)
  | [] => []
  | [e] => [e]
  | e :: n :: rest =>
    if n.startMs ≤ e.startMs then settled count (n :: rest)
    else e.endedBy count (some n.startMs) :: settled count (n :: rest)

/-- No start is lost and none is made up. -/
theorem settled_starts {effects : List (Effect α)} (h : Queue effects) (startMs : Nat) :
    startMs ∈ (settled count effects).map (·.startMs) ↔ startMs ∈ effects.map (·.startMs) := by
  induction effects with
  | nil => exact Iff.rfl
  | cons e rest ih =>
    cases rest with
    | nil => exact Iff.rfl
    | cons n rest =>
      rw [settled, List.map_cons (l := n :: rest), List.mem_cons]
      split
      · rename_i hge
        have hle := h.head_le (List.mem_cons_of_mem _ List.mem_cons_self)
        have same : e.startMs = n.startMs := Nat.le_antisymm hle hge
        rw [ih h.tail, List.map_cons, List.mem_cons, same, or_self_left]
      · rw [List.map_cons, List.mem_cons, ih h.tail, Effect.endedBy_startMs]

/-- What is settled starts no earlier than the first effect. -/
theorem le_of_mem_settled {e x : Effect α} {rest : List (Effect α)} (h : Queue (e :: rest))
    (hx : x ∈ settled count (e :: rest)) : e.startMs ≤ x.startMs := by
  obtain ⟨n, hn, hs⟩ := List.mem_map.mp
    ((settled_starts h x.startMs).mp (List.mem_map_of_mem (f := (·.startMs)) hx))
  rw [← hs]
  exact h.head_le hn

/-- What is settled takes turns. -/
theorem inTurn_settled {effects : List (Effect α)} (h : Queue effects) :
    InTurn (settled count effects) := by
  induction effects with
  | nil => exact inTurn_nil
  | cons e rest ih =>
    have he := h.lasts e List.mem_cons_self
    cases rest with
    | nil => exact inTurn_cons.mpr ⟨he, fun n hn => absurd hn List.not_mem_nil, inTurn_nil⟩
    | cons n rest =>
      rw [settled]
      split
      · exact ih h.tail
      · rename_i hlt
        refine inTurn_cons.mpr ⟨he.endedBy (Nat.not_le.mp hlt), fun x hx => ?_, ih h.tail⟩
        rw [Effect.endedBy_endMs]
        exact Nat.le_trans (Nat.min_le_right _ _) (le_of_mem_settled h.tail hx)

/-- Each effect that is left is the last of its start, as the next start leaves it. -/
theorem settled_kept {effects : List (Effect α)} (h : Queue effects) :
    ∀ x ∈ settled count effects, ∃ o, lastAt? effects x.startMs = some o ∧
      x = o.endedBy count (nextStart? effects x.startMs) := by
  induction effects with
  | nil => exact fun x hx => absurd hx List.not_mem_nil
  | cons e rest ih =>
    have he := h.lasts e List.mem_cons_self
    cases rest with
    | nil =>
      intro x hx
      obtain rfl := List.mem_singleton.mp hx
      refine ⟨x, lastAt?_cons_self he fun n hn => absurd hn List.not_mem_nil, ?_⟩
      rw [nextStart?_cons_of_le (Nat.le_refl _)]
      rfl
    | cons n rest =>
      have hle := h.head_le (List.mem_cons_of_mem _ List.mem_cons_self)
      -- an effect of the rest starts no earlier than `e`, which therefore counts neither as
      -- the last of that start nor as the next one
      have later : ∀ x ∈ settled count (n :: rest), ∃ o,
          lastAt? (e :: n :: rest) x.startMs = some o ∧
          x = o.endedBy count (nextStart? (e :: n :: rest) x.startMs) := by
        intro x hx
        obtain ⟨o, ho, hxo⟩ := ih h.tail x hx
        refine ⟨o, lastAt?_cons_of_some ho, ?_⟩
        rw [nextStart?_cons_of_le (Nat.le_trans hle (le_of_mem_settled h.tail hx))]
        exact hxo
      rw [settled]
      split
      · exact later
      · rename_i hlt
        rw [Nat.not_le] at hlt
        have after : ∀ m ∈ n :: rest, n.startMs ≤ m.startMs := fun m hm => h.tail.head_le hm
        intro x hx
        rcases List.mem_cons.mp hx with rfl | hx
        · rw [Effect.endedBy_startMs]
          refine ⟨e, lastAt?_cons_self he fun m hm => Nat.lt_of_lt_of_le hlt (after m hm), ?_⟩
          have next : nextStart? (n :: rest) e.startMs = some n.startMs :=
            nextStart?_eq_some.mpr
              ⟨⟨n, List.mem_cons_self, h.tail.lasts n List.mem_cons_self, hlt, rfl⟩,
                fun m hm _ _ => after m hm⟩
          rw [nextStart?_cons_of_le (Nat.le_refl _), next]
        · exact later x hx

theorem settled_eq_self {effects : List (Effect α)} (h : InTurn effects) :
    settled count effects = effects := by
  induction effects with
  | nil => rfl
  | cons e rest ih =>
    cases rest with
    | nil => rfl
    | cons n rest =>
      obtain ⟨he, first, others⟩ := inTurn_cons.mp h
      have hn := first n List.mem_cons_self
      rw [settled, if_neg (Nat.not_le.mpr (Nat.lt_of_lt_of_le he hn)), Effect.endedBy_of_le hn,
        ih others]

/-! ## The stack -/

/-- A stack on which everything is over stays as it is. -/
theorem roomAt_of_over {time : Nat} {stack : List (Effect α)}
    (h : ∀ e ∈ stack, e.endMs ≤ time) : roomAt time count stack = stack := by
  cases stack with
  | nil => rfl
  | cons e rest => rw [roomAt, if_pos (h e List.mem_cons_self)]

/-- **One more effect**: it takes the place of the top that starts with it, or else ends it. -/
theorem lay_cons {e n : Effect α} {stack : List (Effect α)} (he : e.Lasts) (hn : n.Lasts)
    (hle : e.startMs ≤ n.startMs) (past : ∀ l ∈ stack, l.endMs ≤ e.startMs) :
    lay count (e :: stack) n =
      n :: (if n.startMs ≤ e.startMs then stack
        else e.endedBy count (some n.startMs) :: stack) := by
  rw [lay, if_neg (Nat.not_le.mpr hn), roomAt]
  split
  · rename_i hend
    rw [if_neg (Nat.not_le.mpr (Nat.lt_of_lt_of_le he hend)), Effect.endedBy_of_le hend]
  · rename_i hend
    split
    · rw [roomAt_of_over fun l hl => Nat.le_trans (past l hl) hle]
    · rw [Effect.endedBy, if_pos (Nat.not_le.mp hend), Effect.cutAt]

/-- Laying out the rest of a queue settles it on top of what is over. -/
theorem foldl_lay {e : Effect α} {rest stack : List (Effect α)} (h : Queue (e :: rest))
    (past : ∀ l ∈ stack, l.endMs ≤ e.startMs) :
    rest.foldl (lay count) (e :: stack) = (settled count (e :: rest)).reverse ++ stack := by
  induction rest generalizing e stack with
  | nil => rfl
  | cons n rest ih =>
    have he := h.lasts e List.mem_cons_self
    have hn := h.tail.lasts n List.mem_cons_self
    have hle := h.head_le (List.mem_cons_of_mem _ List.mem_cons_self)
    rw [List.foldl_cons, lay_cons he hn hle past, settled]
    split
    · exact ih h.tail fun l hl => Nat.le_trans (past l hl) hle
    · rw [ih h.tail, List.reverse_cons, List.append_assoc, List.singleton_append]
      intro l hl
      rcases List.mem_cons.mp hl with rfl | hl
      · rw [Effect.endedBy_endMs]
        exact Nat.min_le_right _ _
      · exact Nat.le_trans (past l hl) hle

/-- Effects without duration are passed over. -/
theorem foldl_lay_filter (effects stack : List (Effect α)) :
    effects.foldl (lay count) stack = (effects.filter (·.Lasts)).foldl (lay count) stack := by
  induction effects generalizing stack with
  | nil => rfl
  | cons e rest ih =>
    by_cases he : e.Lasts
    · have counts : decide e.Lasts = true := decide_eq_true he
      rw [List.filter_cons, if_pos counts, List.foldl_cons, List.foldl_cons, ih]
    · have passed : ¬ decide e.Lasts = true := by rwa [decide_eq_true_eq]
      rw [List.filter_cons, if_neg passed, List.foldl_cons, lay, if_pos (Nat.not_lt.mp he), ih]

end Settled

/-! ## Resolving -/

/-- The last of a start is the same before and after sorting. -/
theorem lastAt?_sorted (effects : List (Effect α)) (startMs : Nat) :
    lastAt? ((sorted effects).filter (·.Lasts)) startMs = lastAt? effects startMs := by
  have split : ∀ l : List (Effect α), l.filter (fun e => e.startMs = startMs ∧ e.Lasts) =
      (l.filter (·.startMs = startMs)).filter (·.Lasts) := fun l => by
    rw [List.filter_filter]
    simp only [Bool.decide_and, Bool.and_comm]
  have absorbed : ((sorted effects).filter (·.Lasts)).filter
      (fun e => e.startMs = startMs ∧ e.Lasts) =
      (sorted effects).filter fun e => e.startMs = startMs ∧ e.Lasts := by
    rw [List.filter_filter]
    simp only [Bool.decide_and, Bool.and_assoc, Bool.and_self]
  unfold lastAt?
  rw [absorbed, split, filter_sorted, ← split]

theorem nextStart?_sorted (effects : List (Effect α)) (time : Nat) :
    nextStart? ((sorted effects).filter (·.Lasts)) time = nextStart? effects time := by
  refine nextStart?_congr (fun e he => ?_) time
  rw [List.mem_filter, mem_sorted, decide_eq_true_eq, and_iff_left he]

variable [Scalar α]

/-- The stack comes to what looking one effect ahead comes to. -/
theorem resolveOverlaps_eq_settled (count : Nat) (effects : List (Effect α)) :
    resolveOverlaps count effects = settled count ((sorted effects).filter (·.Lasts)) := by
  unfold resolveOverlaps
  rw [foldl_lay_filter]
  have queue := queue_sorted effects
  cases hq : (sorted effects).filter (·.Lasts) with
  | nil => rfl
  | cons e rest =>
    rw [hq] at queue
    have first : lay count [] e = [e] := by
      rw [lay, if_neg (Nat.not_le.mpr (queue.lasts e List.mem_cons_self)), roomAt]
    rw [List.foldl_cons, first,
      foldl_lay queue fun l hl => absurd hl List.not_mem_nil, List.append_nil,
      List.reverse_reverse]

/-- **Effects whose overlaps are resolved take turns.** -/
theorem inTurn_resolveOverlaps (count : Nat) (effects : List (Effect α)) :
    InTurn (resolveOverlaps count effects) := by
  rw [resolveOverlaps_eq_settled]
  exact inTurn_settled (queue_sorted effects)

/-- **Effects that take turns stay as they are.** -/
theorem InTurn.resolveOverlaps_eq {effects : List (Effect α)} (h : InTurn effects) (count : Nat) :
    resolveOverlaps count effects = effects := by
  have all_last : effects.filter (·.Lasts) = effects :=
    List.filter_eq_self.mpr fun e he => decide_eq_true (h.lasts e he)
  rw [resolveOverlaps_eq_settled, h.sorted_eq, all_last, settled_eq_self h]

theorem resolves_resolveOverlaps (count : Nat) (effects : List (Effect α)) :
    Resolves count effects (resolveOverlaps count effects) := by
  have queue := queue_sorted effects
  refine ⟨(inTurn_resolveOverlaps count effects).starts_lt, fun startMs => ?_, fun x hx => ?_⟩
  · rw [resolveOverlaps_eq_settled, ← List.mem_map, settled_starts queue, List.mem_map]
    simp only [List.mem_filter, mem_sorted, decide_eq_true_eq, and_assoc, and_comm (a := _ = _)]
  · rw [resolveOverlaps_eq_settled] at hx
    obtain ⟨o, ho, hxo⟩ := settled_kept queue x hx
    rw [lastAt?_sorted] at ho
    rw [nextStart?_sorted] at hxo
    exact ⟨o, ho, hxo⟩

/-- What holds of every effect, and of every effect that is ended, holds of what effects come to. -/
theorem forall_resolveOverlaps {count : Nat} {effects : List (Effect α)} {P : Effect α → Prop}
    (endedBy : ∀ e next, P e → P (e.endedBy count next)) (h : ∀ e ∈ effects, P e) :
    ∀ e ∈ resolveOverlaps count effects, P e := by
  intro e he
  obtain ⟨o, ho, heo⟩ := (resolves_resolveOverlaps count effects).kept e he
  rw [heo]
  exact endedBy o _ (h o (mem_of_lastAt? ho))

/-- Resolving overlaps leaves effects with the head they are for. -/
theorem own_resolveOverlaps {count : Nat} {effects : List (Effect α)} {id : String}
    (own : ∀ e ∈ effects, e.fixtureId = id) :
    ∀ e ∈ resolveOverlaps count effects, e.fixtureId = id :=
  forall_resolveOverlaps (fun _ _ h => Effect.endedBy_fixtureId.trans h) own

/-- The description leaves no choice: it fixes the starts, and for each start the effect. -/
theorem Resolves.mem {count : Nat} {effects laid others : List (Effect α)}
    (h : Resolves count effects laid) (h' : Resolves count effects others) :
    ∀ e ∈ laid, e ∈ others := by
  intro e he
  obtain ⟨x, hx, hs⟩ := (h'.starts e.startMs).mpr ((h.starts e.startMs).mp ⟨e, he, rfl⟩)
  obtain ⟨o, ho, heo⟩ := h.kept e he
  obtain ⟨o', ho', hxo⟩ := h'.kept x hx
  rw [hs] at ho' hxo
  obtain rfl := Option.some.inj (ho.symm.trans ho')
  rw [heo, ← hxo]
  exact hx

theorem Resolves.unique {count : Nat} {effects laid others : List (Effect α)}
    (h : Resolves count effects laid) (h' : Resolves count effects others) : laid = others := by
  have nodup : ∀ {l : List (Effect α)}, l.Pairwise (fun a b => a.startMs < b.startMs) → l.Nodup :=
    fun hl => hl.imp fun hlt heq => Nat.ne_of_lt hlt (congrArg Effect.startMs heq)
  have perm : laid.Perm others :=
    (List.perm_ext_iff_of_nodup (nodup h.increasing) (nodup h'.increasing)).mpr fun e =>
      ⟨h.mem h' e, h'.mem h e⟩
  refine perm.eq_of_pairwise (fun a b _ _ hab hba => ?_) h.increasing h'.increasing
  exact absurd hba (Nat.lt_asymm hab)

/-- **Resolving overlaps returns exactly what overlapping effects come to**: for each start of an
effect that takes time the last one given, ended by the next of these starts. -/
theorem resolves_iff {count : Nat} {effects laid : List (Effect α)} :
    Resolves count effects laid ↔ laid = resolveOverlaps count effects := by
  constructor
  · intro h
    exact h.unique (resolves_resolveOverlaps count effects)
  · rintro rfl
    exact resolves_resolveOverlaps count effects

end Timeline

end MovingLight
