import MovingLight.Proofs.Sorting
import MovingLight.Timeline.Overlap

/-!
# Order — effects that take turns

A head shows one effect at a time. `Timeline.InTurn` says so of a list: every
effect takes time, and each is over before any that follows it starts. It is
the property every stage of a head's timeline hands on to the next. What a
timeline is before that, in order but with overlaps, is a `Timeline.Queue`.

Sorting is where order comes from. `Timeline.sorted` moves effects without
changing them, keeps those of one start in the order given
(`Timeline.filter_sorted`), leaves a list in order alone
(`Timeline.sorted_eq_self`), and turns effects of which no two are ever active
together into effects that take turns (`Timeline.inTurn_sorted`).

Nothing here looks at channels.
-/

namespace MovingLight

variable {α : Type}

/-- The effect takes time. -/
def Effect.Lasts (e : Effect α) : Prop := e.startMs < e.endMs

instance (e : Effect α) : Decidable e.Lasts := inferInstanceAs (Decidable (_ < _))

/-- The effect is active at a time; its end is open. -/
def Effect.ActiveAt (e : Effect α) (time : Nat) : Prop := e.startMs ≤ time ∧ time < e.endMs

/-- One of two effects is over before the other starts. -/
def Effect.Apart (a b : Effect α) : Prop := a.endMs ≤ b.startMs ∨ b.endMs ≤ a.startMs

theorem Effect.Apart.symm {a b : Effect α} (h : a.Apart b) : b.Apart a := Or.symm h

namespace Timeline

/-! ## Turns -/

/-- **Effects take turns**: each takes time and is over before those after it start. -/
structure InTurn (effects : List (Effect α)) : Prop where
  lasts : ∀ e ∈ effects, e.Lasts
  turns : effects.Pairwise fun a b => a.endMs ≤ b.startMs

theorem inTurn_nil : InTurn ([] : List (Effect α)) where
  lasts _ he := absurd he List.not_mem_nil
  turns := .nil

theorem inTurn_cons {e : Effect α} {rest : List (Effect α)} :
    InTurn (e :: rest) ↔ e.Lasts ∧ (∀ n ∈ rest, e.endMs ≤ n.startMs) ∧ InTurn rest := by
  constructor
  · intro h
    obtain ⟨first, others⟩ := List.pairwise_cons.mp h.turns
    exact ⟨h.lasts e List.mem_cons_self, first,
      fun n hn => h.lasts n (List.mem_cons_of_mem _ hn), others⟩
  · rintro ⟨he, first, rest_turn⟩
    refine ⟨fun n hn => ?_, List.pairwise_cons.mpr ⟨first, rest_turn.turns⟩⟩
    rcases List.mem_cons.mp hn with rfl | hn
    · exact he
    · exact rest_turn.lasts n hn

/-- Effects that take turns start one after the other. -/
theorem InTurn.starts_lt {effects : List (Effect α)} (h : InTurn effects) :
    effects.Pairwise fun a b => a.startMs < b.startMs := by
  refine h.turns.imp_of_mem fun {a b} ha _ hab => ?_
  exact Nat.lt_of_lt_of_le (h.lasts a ha) hab

/-! ## Queues -/

/-- **Effects in order of their start that all take time.** They may overlap. -/
structure Queue (effects : List (Effect α)) : Prop where
  lasts : ∀ e ∈ effects, e.Lasts
  ordered : effects.Pairwise fun a b => a.startMs ≤ b.startMs

theorem Queue.tail {e : Effect α} {rest : List (Effect α)} (h : Queue (e :: rest)) :
    Queue rest :=
  ⟨fun n hn => h.lasts n (List.mem_cons_of_mem _ hn), h.ordered.of_cons⟩

theorem Queue.head_le {e n : Effect α} {rest : List (Effect α)} (h : Queue (e :: rest))
    (hn : n ∈ e :: rest) : e.startMs ≤ n.startMs := by
  rcases List.mem_cons.mp hn with rfl | hn
  · exact Nat.le_refl _
  · exact List.rel_of_pairwise_cons h.ordered hn

theorem InTurn.queue {effects : List (Effect α)} (h : InTurn effects) : Queue effects :=
  ⟨h.lasts, h.starts_lt.imp Nat.le_of_lt⟩

/-! ## Sorting -/

theorem sorted_perm (effects : List (Effect α)) : (sorted effects).Perm effects :=
  List.mergeSort_perm effects _

@[simp] theorem mem_sorted {effects : List (Effect α)} {e : Effect α} :
    e ∈ sorted effects ↔ e ∈ effects := (sorted_perm effects).mem_iff

theorem sorted_pairwise (effects : List (Effect α)) :
    (sorted effects).Pairwise fun a b => a.startMs ≤ b.startMs :=
  Sorting.pairwise_mergeSort Effect.startMs effects

/-- Effects in order of their start stay as they are. -/
theorem sorted_eq_self {effects : List (Effect α)}
    (h : effects.Pairwise fun a b => a.startMs ≤ b.startMs) : sorted effects = effects :=
  List.mergeSort_of_pairwise (h.imp decide_eq_true)

/-- What stands in order inside a list stands in that order inside the sorted list. -/
theorem sublist_sorted {part effects : List (Effect α)}
    (h : part.Pairwise fun a b => a.startMs ≤ b.startMs) (hsub : part.Sublist effects) :
    part.Sublist (sorted effects) :=
  Sorting.sublist_mergeSort Effect.startMs h hsub

/-- **Sorting keeps the order of effects with one start.** -/
theorem filter_sorted (startMs : Nat) (effects : List (Effect α)) :
    (sorted effects).filter (·.startMs = startMs) = effects.filter (·.startMs = startMs) :=
  Sorting.filter_mergeSort Effect.startMs startMs effects

theorem InTurn.sorted_eq {effects : List (Effect α)} (h : InTurn effects) :
    sorted effects = effects :=
  sorted_eq_self h.queue.ordered

theorem queue_sorted (effects : List (Effect α)) : Queue ((sorted effects).filter (·.Lasts)) :=
  ⟨fun _ he => of_decide_eq_true (List.mem_filter.mp he).2,
    (sorted_pairwise effects).sublist List.filter_sublist⟩

/-- **Effects of which no two are active together take turns once they are sorted.** -/
theorem inTurn_sorted {effects : List (Effect α)} (hlasts : ∀ e ∈ effects, e.Lasts)
    (hapart : effects.Pairwise Effect.Apart) : InTurn (sorted effects) := by
  have lasts : ∀ e ∈ sorted effects, e.Lasts := fun e he => hlasts e (mem_sorted.mp he)
  have apart : (sorted effects).Pairwise Effect.Apart :=
    ((sorted_perm effects).pairwise_iff Effect.Apart.symm).mpr hapart
  refine ⟨lasts, ((sorted_pairwise effects).and apart).imp_of_mem ?_⟩
  rintro a b - hb ⟨hle, hab | hba⟩
  · exact hab
  · exact absurd (Nat.lt_of_lt_of_le (lasts b hb) hba) (Nat.not_lt.mpr hle)

/-- Effects that take turns are never active together. -/
theorem InTurn.pairwise_apart {effects : List (Effect α)} (h : InTurn effects) :
    effects.Pairwise Effect.Apart :=
  h.turns.imp Or.inl

/-- **At any time one effect is active at most**, among effects that take turns. -/
theorem InTurn.eq_of_activeAt {effects : List (Effect α)} (h : InTurn effects) {time : Nat}
    {a b : Effect α} (ha : a ∈ effects) (hb : b ∈ effects) (active : a.ActiveAt time)
    (active' : b.ActiveAt time) : a = b := by
  by_contra differ
  obtain ⟨from_a, to_a⟩ := active
  obtain ⟨from_b, to_b⟩ := active'
  have symmetric : Std.Symm (Effect.Apart (α := α)) := ⟨fun _ _ => Effect.Apart.symm⟩
  have apart : a.Apart b := h.pairwise_apart.forall ha hb differ
  rcases apart with hover | hover
  · exact Nat.not_lt.mpr (Nat.le_trans hover from_b) to_a
  · exact Nat.not_lt.mpr (Nat.le_trans hover from_a) to_b

end Timeline

end MovingLight
