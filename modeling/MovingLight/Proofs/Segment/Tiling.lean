import MovingLight.Proofs.Scalar.Portion
import MovingLight.Segment

/-!
# Tiling — the steps of a section divide it among them

A step is timed by two fractions of its section, and a single function turns either of them into
a time: `Span.moment`. It rounds, but it keeps the order of fractions and takes them all into the
section (`Span.moment_mono`, `Span.moment_le`), and where one step ends at the fraction at which
the next begins, both come to the same millisecond. So the windows of steps that follow one
another from nought to one (`Step.Follow`) abut (`Step.Follow.abut`): nothing of the section is
left out, and nothing is given twice.

A step that runs backwards ends when it starts. Its window closes at the moment of the later of
its two fractions, as that of any other step does.
-/

namespace MovingLight

variable {α : Type} [Scalar α]

/-! ## Moments -/

/-- The time a fraction of a section comes to. -/
def Span.moment (within : Span) (fraction : α) : Nat :=
  within.startMs + Scalar.share (Scalar.clampUnit fraction) within.durationMs

section Moment

variable [Scalar.PortionLaws α] {within : Span}

theorem Span.moment_mono (short : within.durationMs < 2 ^ 29) {x y : α} (h : x ≤ y) :
    within.moment x ≤ within.moment y :=
  Nat.add_le_add_left (Scalar.PortionLaws.share_mono x y _ short h) _

theorem Span.moment_zero (short : within.durationMs < 2 ^ 29) :
    within.moment (0 : α) = within.startMs := by
  rw [Span.moment, Scalar.PortionLaws.share_zero _ short, Nat.add_zero]

theorem Span.moment_one (forwards : within.startMs ≤ within.endMs)
    (short : within.durationMs < 2 ^ 29) : within.moment (1 : α) = within.endMs := by
  rw [Span.moment, Scalar.PortionLaws.share_one _ short]
  exact Nat.add_sub_of_le forwards

/-- Every fraction comes to a time of the section. -/
theorem Span.moment_le (forwards : within.startMs ≤ within.endMs)
    (short : within.durationMs < 2 ^ 29) (x : α) :
    within.startMs ≤ within.moment x ∧ within.moment x ≤ within.endMs := by
  have share := Scalar.ShareLaws.share_le x within.durationMs short
  refine ⟨Nat.le_add_right _ _, ?_⟩
  calc
    within.moment x ≤ within.startMs + within.durationMs := Nat.add_le_add_left share _
    _ = within.endMs := Nat.add_sub_of_le forwards

/-- Fractions that are equal come to one time. -/
theorem Span.moment_eq (short : within.durationMs < 2 ^ 29) {x y : α}
    (h : Scalar.equal x y = true) : within.moment x = within.moment y := by
  obtain ⟨le, ge⟩ := of_decide_eq_true h
  exact (Span.moment_mono short le).antisymm (Span.moment_mono short ge)

theorem Span.moment_greater (short : within.durationMs < 2 ^ 29) (x y : α) :
    within.moment (Scalar.greater x y) = max (within.moment x) (within.moment y) := by
  rw [Span.moment, Scalar.PortionLaws.share_greater x y _ short, ← Nat.add_max_add_left]
  rfl

/-- **The window of a step** is from the moment of its start to that of the later of its
fractions. -/
theorem Step.window_eq (short : within.durationMs < 2 ^ 29) (step : Step α) :
    step.window within =
      (within.moment step.start, within.moment (Scalar.greater step.finish step.start)) := by
  rw [Span.moment_greater short]
  rfl

/-- A step that does not run backwards ends at the moment of its finish. -/
theorem Step.window_of_le (short : within.durationMs < 2 ^ 29) {step : Step α}
    (h : step.start ≤ step.finish) :
    step.window within = (within.moment step.start, within.moment step.finish) := by
  rw [Step.window_eq short, Span.moment_greater short, max_eq_left (Span.moment_mono short h)]

end Moment

/-! ## Windows side by side -/

/-- **Windows abut from one time to another**: the first starts at the one, each next where the one
before it ends, and the last ends at the other. -/
def Abut (a b : Nat) : List (Nat × Nat) → Prop
  | [] => a = b
  | w :: rest => w.1 = a ∧ w.1 ≤ w.2 ∧ Abut w.2 b rest

namespace Abut

variable {a b : Nat} {windows : List (Nat × Nat)}

theorem le (h : Abut a b windows) : a ≤ b := by
  induction windows generalizing a with
  | nil => exact Nat.le_of_eq h
  | cons w rest ih =>
    obtain ⟨rfl, forwards, later⟩ := h
    exact forwards.trans (ih later)

theorem starts (h : Abut a b windows) : ∀ w ∈ windows, a ≤ w.1 := by
  induction windows generalizing a with
  | nil => exact List.forall_mem_nil _
  | cons w rest ih =>
    obtain ⟨rfl, forwards, later⟩ := h
    exact List.forall_mem_cons.mpr ⟨le_rfl, fun v hv => forwards.trans (ih later v hv)⟩

/-- No window reaches into a later one. -/
theorem pairwise (h : Abut a b windows) : windows.Pairwise fun w later => w.2 ≤ later.1 := by
  induction windows generalizing a with
  | nil => exact .nil
  | cons w rest ih =>
    obtain ⟨-, -, later⟩ := h
    exact .cons later.starts (ih later)

/-- Every time from the one to the other is in a window. -/
theorem exists_window (h : Abut a b windows) {time : Nat} (after : a ≤ time) (before : time < b) :
    ∃ w ∈ windows, w.1 ≤ time ∧ time < w.2 := by
  induction windows generalizing a with
  | nil =>
    cases h
    exact absurd before (Nat.not_lt.mpr after)
  | cons w rest ih =>
    obtain ⟨rfl, -, later⟩ := h
    rcases Nat.lt_or_ge time w.2 with inside | beyond
    · exact ⟨w, List.mem_cons_self, after, inside⟩
    · obtain ⟨v, hv, here⟩ := ih later beyond
      exact ⟨v, List.mem_cons_of_mem w hv, here⟩

end Abut

/-! ## Steps one after another -/

/-- **Steps follow one another from a fraction to a fraction**: the first starts at the one, each
next where the one before it finishes, the last finishes at the other, and none runs backwards. -/
def Step.Follow (x y : α) : List (Step α) → Prop
  | [] => Scalar.equal x y = true
  | s :: rest => Scalar.equal s.start x = true ∧ s.start ≤ s.finish ∧ Follow s.finish y rest

instance Step.Follow.decidable : (x y : α) → (steps : List (Step α)) → Decidable (Follow x y steps)
  | x, y, [] => inferInstanceAs (Decidable (Scalar.equal x y = true))
  | x, y, s :: rest =>
    have := decidable s.finish y rest
    inferInstanceAs (Decidable (Scalar.equal s.start x = true ∧ s.start ≤ s.finish ∧ _))

theorem Step.Follow.abut [Scalar.PortionLaws α] {within : Span}
    (short : within.durationMs < 2 ^ 29) {x y : α} {steps : List (Step α)}
    (h : Step.Follow x y steps) :
    Abut (within.moment x) (within.moment y) (steps.map (·.window within)) := by
  induction steps generalizing x with
  | nil => exact Span.moment_eq short h
  | cons s rest ih =>
    obtain ⟨start, forwards, later⟩ := h
    rw [List.map_cons, Abut, Step.window_of_le short forwards]
    exact ⟨Span.moment_eq short start, Span.moment_mono short forwards, ih later⟩

/-! ## Sections -/

/-- **The steps of a section divide it among them.** One function takes fractions to times in order,
and from end to end of the section; it gives both edges of every window, and so the windows of
steps that follow one another fill the section, without a gap and without meeting. -/
theorem Step.windows_tile [Scalar.PortionLaws α] {within : Span}
    (forwards : within.startMs ≤ within.endMs) (short : within.durationMs < 2 ^ 29) :
    (∀ x y : α, x ≤ y → within.moment x ≤ within.moment y) ∧
    within.moment (0 : α) = within.startMs ∧ within.moment (1 : α) = within.endMs ∧
    (∀ step : Step α,
      step.window within =
        (within.moment step.start, within.moment (Scalar.greater step.finish step.start)) ∧
      (step.start ≤ step.finish → (step.window within).2 = within.moment step.finish) ∧
      within.startMs ≤ (step.window within).1 ∧
      (step.window within).1 ≤ (step.window within).2 ∧
      (step.window within).2 ≤ within.endMs) ∧
    ∀ steps : List (Step α), Step.Follow 0 1 steps →
      let windows := steps.map (·.window within)
      Abut within.startMs within.endMs windows ∧
      (windows.Pairwise fun w later => w.2 ≤ later.1) ∧
      ∀ time, within.startMs ≤ time → time < within.endMs →
        ∃ w ∈ windows, w.1 ≤ time ∧ time < w.2 := by
  have zero : within.moment (0 : α) = within.startMs := Span.moment_zero short
  have one : within.moment (1 : α) = within.endMs := Span.moment_one forwards short
  refine ⟨fun x y h => Span.moment_mono short h, zero, one, fun step => ?_, fun steps follow => ?_⟩
  · have edges := step.window_eq short
    refine ⟨edges, fun h => by rw [Step.window_of_le short h], ?_, ?_, ?_⟩
    · rw [edges]
      exact (Span.moment_le forwards short _).1
    · rw [edges, Span.moment_greater short]
      exact le_max_right _ _
    · rw [edges]
      exact (Span.moment_le forwards short _).2
  · have abut := follow.abut short
    rw [zero, one] at abut
    exact ⟨abut, abut.pairwise, fun time after before => abut.exists_window after before⟩

/-- Three steps of a section of 1001 milliseconds that meet at a third and at seven tenths, and a
fourth step that runs backwards. -/
theorem Step.windows_tile_of_thirds :
    let within : Span := { id := "verse", startMs := 1000, endMs := 2001 }
    let step (start finish : Float32) : Step Float32 := ⟨"", start, finish, "ALL", {}⟩
    let steps := [step 0 (1 / 3), step (1 / 3) 0.7, step 0.7 1]
    within.startMs ≤ within.endMs ∧ within.durationMs < 2 ^ 29 ∧ Step.Follow 0 1 steps ∧
    Abut 1000 2001 [(1000, 1334), (1334, 1701), (1701, 2001)] ∧
    (step 0.7 0.25).window within = (1701, 1701) := by
  intro within step steps
  have forwards : within.startMs ≤ within.endMs := by decide
  have short : within.durationMs < 2 ^ 29 := by decide
  have follow : Step.Follow 0 1 steps := by decide +kernel
  have windows : steps.map (·.window within) = [(1000, 1334), (1334, 1701), (1701, 2001)] := by
    decide +kernel
  obtain ⟨-, -, -, each, all⟩ := Step.windows_tile (α := Float32) forwards short
  have abut := (all steps follow).1
  rw [windows] at abut
  refine ⟨forwards, short, follow, abut, ?_⟩
  rw [(each (step 0.7 0.25)).1]
  decide +kernel

end MovingLight
