import MovingLight.Proofs.Formation
import MovingLight.Proofs.Scalar.Exact

/-!
# Waves — one movement, later from head to head

Every head of a wave is one step behind the head before it, and a step is as long as a planner
writes it down, in degrees of a turn. Where nothing that can be read is written, a turn is shared
out among the heads and comes out even: no two of them are in phase, and one step after the last
head is the first one again.

A phase is an angle less its whole turns (`Formation.IsPhase`), which holds for one phase only. A
step may thus be negative, or several turns long. A wave that is told to run backwards starts at
its last head, and is the same wave from there on (`Formation.distribute_wave_reverse`): counting
backwards is the only thing the direction decides.

The turn is shared out evenly in the exact reading. Between the steps of a wave of seven heads in
single precision there are differences in the last place. What a wave leaves alone and how it is
reversed holds in any reading.
-/

namespace MovingLight

/-! ## Numbers in parameters -/

namespace Params

variable {p : Params} {key : String}

/-- **A number is written** where a parameter is one, or is a text that spells one. -/
inductive Writes (p : Params) (key : String) : Float → Prop
  | number {n : JsonNumber} : p.get? key = some (.number (some n)) → Writes p key n.toFloat
  | text {s : String} {x : Float} : p.get? key = some (.string (some s)) →
      Text.double? s = some x → Writes p key x

/-- A parameter is read as a number exactly if it writes a finite one. -/
theorem number?_eq_some_iff {α : Type} [Scalar α] {d : α} : p.number? key = some d ↔
    ∃ x, p.Writes key x ∧ Scalar.isFinite (Scalar.ofFloat x : α) = true ∧ Scalar.ofFloat x = d := by
  constructor
  · intro read
    obtain ⟨found, finite⟩ := Option.filter_eq_some_iff.mp read
    obtain ⟨x, written, rfl⟩ := Option.map_eq_some_iff.mp found
    refine ⟨x, ?_, finite, rfl⟩
    split at written
    · rename_i n number
      cases written
      exact .number number
    · rename_i s text
      exact .text text written
    · cases written
  · rintro ⟨x, written, finite, rfl⟩
    unfold number?
    cases written with
    | number number =>
      rw [number]
      exact Option.filter_eq_some_iff.mpr ⟨rfl, finite⟩
    | text text spelled =>
      rw [text]
      exact Option.filter_eq_some_iff.mpr ⟨congrArg (Option.map _) spelled, finite⟩

/-- Read exactly, every number is finite. -/
theorem number?_eq_none_iff [ExactReading] :
    (p.number? key : Option ℚ) = none ↔ ∀ x, ¬p.Writes key x := by
  rw [Option.eq_none_iff_forall_ne_some]
  constructor
  · exact fun none x written => none _ (number?_eq_some_iff.mpr ⟨x, written, rfl, rfl⟩)
  · intro nothing d read
    obtain ⟨x, written, -⟩ := number?_eq_some_iff.mp read
    exact nothing x written

end Params

namespace Formation

/-! ## Steps -/

section Steps

variable {α : Type} [Scalar α] (p : Params) (base : Movement α)

/-- The degrees between two heads next to each other. -/
def waveSpacing (p : Params) (count : Nat) : α :=
  (p.number? "phase_spacing").getD (360 / ((max count 1 : Nat) : α))

/-- A wave is told to run backwards. -/
def Backward (p : Params) : Prop := p.text "direction" "forward" = "reverse"

instance (p : Params) : Decidable (Backward p) := inferInstanceAs (Decidable (_ = _))

variable {p}

theorem placeWave_of_forward (forward : ¬Backward p) (s : Slot α) : placeWave p base s =
    base.withPhase (base.phaseDeg + (s.index : α) * waveSpacing p s.count) := by
  have direction : (p.text "direction" "forward" == "reverse") = false :=
    beq_eq_false_iff_ne.mpr forward
  unfold placeWave
  rw [direction]
  rfl

theorem placeWave_of_backward (backward : Backward p) (s : Slot α) : placeWave p base s =
    base.withPhase
      (base.phaseDeg + ((max s.count 1 - 1 - s.index : Nat) : α) * waveSpacing p s.count) := by
  have direction : (p.text "direction" "forward" == "reverse") = true := beq_iff_eq.mpr backward
  unfold placeWave
  rw [direction]
  rfl

variable (p)

/-- A wave changes the phase and nothing else. -/
theorem placeWave_eq (s : Slot α) :
    placeWave p base s = { base with phaseDeg := (placeWave p base s).phaseDeg } := rfl

theorem eq_of_mem_distribute_wave {m : Movement α} {ids : List String}
    (h : m ∈ wave.distribute p base ids) : m = { base with phaseDeg := m.phaseDeg } := by
  obtain ⟨s, -, rfl⟩ := List.mem_map.mp h
  exact placeWave_eq p base s

variable {p}

/-- **A wave that runs backwards is the wave from the other end.** -/
theorem distribute_wave_reverse {q : Params} (backward : Backward p) (forward : ¬Backward q)
    (same : p.get? "phase_spacing" = q.get? "phase_spacing") (ids : List String) :
    wave.distribute p base ids = (wave.distribute q base ids).reverse := by
  have spacing : (waveSpacing p ids.length : α) = waveSpacing q ids.length := by
    unfold waveSpacing Params.number?
    rw [same]
  refine List.ext_getElem ?_ fun i inside _ => ?_
  · rw [List.length_reverse, length_distribute, length_distribute]
  · rw [List.getElem_reverse, getElem_distribute, getElem_distribute, length_distribute]
    have count : i < ids.length := length_distribute p base wave ▸ inside
    have several : max ids.length 1 = ids.length := by omega
    show placeWave p base _ = placeWave q base _
    rw [placeWave_of_backward base backward, placeWave_of_forward base forward]
    show base.withPhase
        (base.phaseDeg + ((max ids.length 1 - 1 - i : Nat) : α) * waveSpacing p ids.length) =
      base.withPhase (base.phaseDeg + ((ids.length - 1 - i : Nat) : α) * waveSpacing q ids.length)
    rw [several, spacing]

end Steps

/-! ## Phases -/

/-- **A phase of an angle**: what it is within one turn, but for whole turns. -/
structure IsPhase (angle phase : ℚ) : Prop where
  mem : phase ∈ Set.Ico (0 : ℚ) 360
  turns : ∃ k : ℤ, angle = phase + k * 360

/-- An angle has one phase. -/
theorem IsPhase.unique {angle phase phase' : ℚ} (h : IsPhase angle phase)
    (h' : IsPhase angle phase') : phase = phase' := by
  obtain ⟨⟨nonneg, below⟩, k, turned⟩ := h
  obtain ⟨⟨nonneg', below'⟩, k', turned'⟩ := h'
  -- two phases are less than a turn apart, and so are a whole number of turns
  have apart : phase - phase' = ((k' - k : ℤ) : ℚ) * 360 := by
    push_cast
    linarith
  have above : ((-1 : ℤ) : ℚ) < ((k' - k : ℤ) : ℚ) := by
    push_cast at apart ⊢
    linarith
  have under : ((k' - k : ℤ) : ℚ) < ((1 : ℤ) : ℚ) := by
    push_cast at apart ⊢
    linarith
  have together : k' - k = 0 := by
    have above := Int.cast_lt.mp above
    have under := Int.cast_lt.mp under
    omega
  rw [together, Int.cast_zero, zero_mul] at apart
  exact sub_eq_zero.mp apart

theorem isPhase_self {angle : ℚ} (h : angle ∈ Set.Ico (0 : ℚ) 360) : IsPhase angle angle :=
  ⟨h, 0, by rw [Int.cast_zero, zero_mul, add_zero]⟩

variable [ExactReading]

theorem isPhase_emod (angle : ℚ) : IsPhase angle (Scalar.emod angle 360) := by
  have reduced : Scalar.emod angle 360 = angle - ⌊angle / 360⌋ * 360 := by
    show angle - ⌊angle / |360|⌋ * |360| = _
    rw [abs_of_pos (by norm_num)]
  have part := Int.floor_add_fract (angle / 360)
  have nonneg := Int.fract_nonneg (angle / 360)
  have below := Int.fract_lt_one (angle / 360)
  rw [reduced]
  refine ⟨⟨?_, ?_⟩, ⌊angle / 360⌋, ?_⟩
  · linarith
  · linarith
  · ring

variable {p : Params} (base : Movement ℚ) {ids : List String} {i : Nat}

/-- A spacing that is written is that of any number of heads. -/
theorem waveSpacing_of_writes {x : Float} (written : p.Writes "phase_spacing" x) (count : Nat) :
    waveSpacing p count = (Scalar.ofFloat x : ℚ) := by
  have read : p.number? "phase_spacing" = some (Scalar.ofFloat x : ℚ) :=
    Params.number?_eq_some_iff.mpr ⟨x, written, rfl, rfl⟩
  unfold waveSpacing
  rw [read, Option.getD_some]

/-- In a wave a head is as many steps on as there are heads before it. -/
theorem isPhase_of_forward (plain : base.phaseDeg = 0) (forward : ¬Backward p)
    (inside : i < (wave.distribute p base ids).length) :
    IsPhase (i * waveSpacing p ids.length) (wave.distribute p base ids)[i].phaseDeg := by
  rw [getElem_distribute]
  show IsPhase _ (placeWave p base _).phaseDeg
  rw [placeWave_of_forward base forward, plain]
  show IsPhase _ (Scalar.emod (0 + (i : ℚ) * waveSpacing p ids.length) 360)
  rw [zero_add]
  exact isPhase_emod _

/-- A turn that is shared out is nowhere reached. -/
theorem phaseDeg_of_shared (plain : base.phaseDeg = 0) (forward : ¬Backward p)
    (unread : (p.number? "phase_spacing" : Option ℚ) = none)
    (inside : i < (wave.distribute p base ids).length) :
    (wave.distribute p base ids)[i].phaseDeg = i * 360 / ids.length := by
  have count : i < ids.length := length_distribute p base wave ▸ inside
  have several : max ids.length 1 = ids.length := by omega
  have heads : (0 : ℚ) < ids.length := Nat.cast_pos.mpr (by omega)
  have before : (i : ℚ) < ids.length := Nat.cast_lt.mpr count
  have angle : (i : ℚ) * waveSpacing p ids.length = i * 360 / ids.length := by
    unfold waveSpacing
    rw [unread, several, Option.getD_none, mul_div_assoc]
  -- an angle inside the turn is a phase of itself, so nothing is taken off
  have turn : (i : ℚ) * 360 / ids.length ∈ Set.Ico (0 : ℚ) 360 := by
    refine ⟨by positivity, ?_⟩
    rw [div_lt_iff₀ heads]
    linarith
  have phase := isPhase_of_forward base plain forward inside
  rw [angle] at phase
  exact phase.unique (isPhase_self turn)

/-- The degrees between two heads of an unspaced wave are the same all along it. -/
theorem phaseDeg_succ_sub (plain : base.phaseDeg = 0) (forward : ¬Backward p)
    (unread : (p.number? "phase_spacing" : Option ℚ) = none)
    (inside : i + 1 < (wave.distribute p base ids).length) :
    (wave.distribute p base ids)[i + 1].phaseDeg - (wave.distribute p base ids)[i].phaseDeg =
      360 / ids.length := by
  rw [phaseDeg_of_shared base plain forward unread inside,
    phaseDeg_of_shared base plain forward unread (Nat.lt_of_succ_lt inside), Nat.cast_succ]
  ring

/-- No head of an unspaced wave is in phase with another, or ahead of one before it. -/
theorem pairwise_phaseDeg (plain : base.phaseDeg = 0) (forward : ¬Backward p)
    (unread : (p.number? "phase_spacing" : Option ℚ) = none) :
    ((wave.distribute p base ids).map (·.phaseDeg)).Pairwise (· < ·) := by
  refine List.pairwise_map.mpr (List.pairwise_iff_getElem.mpr fun i j hi hj before => ?_)
  have count : j < ids.length := length_distribute p base wave ▸ hj
  have heads : (0 : ℚ) < ids.length := Nat.cast_pos.mpr (by omega)
  have before : (i : ℚ) < j := Nat.cast_lt.mpr before
  rw [phaseDeg_of_shared base plain forward unread hi,
    phaseDeg_of_shared base plain forward unread hj]
  gcongr

/-! ## A whole selection -/

/-- **The phases of a wave.** Read exactly, about a movement at phase zero and for any selection: a
wave changes phases only. Where no number is written as its spacing it shares out one turn, head `i`
of `n` being at `i * 360 / n`, so phases go up from head to head, by the same each time, and stay
below the turn. Where one is written, in whatever form it can be read, head `i` is at the phase of
`i` times that. A wave told to run backwards gives each head the movement that the head opposite
to it has in the wave that is not. -/
theorem distribute_wave_runs (p : Params) (plain : base.phaseDeg = 0) (ids : List String) :
    let placed := wave.distribute p base ids
    placed.length = ids.length ∧
    (∀ m ∈ placed, m = { base with phaseDeg := m.phaseDeg }) ∧
    (¬Backward p → (∀ x, ¬p.Writes "phase_spacing" x) →
      (∀ (i : Nat) (inside : i < placed.length),
        placed[i].phaseDeg = i * 360 / ids.length) ∧
      (∀ (i : Nat) (inside : i + 1 < placed.length),
        placed[i + 1].phaseDeg - placed[i].phaseDeg = 360 / ids.length) ∧
      (placed.map (·.phaseDeg)).Pairwise (· < ·) ∧ ∀ m ∈ placed, m.phaseDeg < 360) ∧
    (¬Backward p → ∀ x, p.Writes "phase_spacing" x →
      ∀ (i : Nat) (inside : i < placed.length),
        IsPhase (i * Scalar.ofFloat x) placed[i].phaseDeg) ∧
    (Backward p → ∀ q : Params, ¬Backward q → p.get? "phase_spacing" = q.get? "phase_spacing" →
      placed = (wave.distribute q base ids).reverse) := by
  intro placed
  have count : placed.length = ids.length := length_distribute p base wave
  have within {i : Nat} (forward : ¬Backward p) (inside : i < placed.length) :
      IsPhase (i * waveSpacing p ids.length) placed[i].phaseDeg :=
    isPhase_of_forward base plain forward inside
  refine ⟨count, fun m => eq_of_mem_distribute_wave p base, fun forward nothing => ?_,
    fun forward x written i inside => ?_,
    fun backward q forward same => distribute_wave_reverse base backward forward same ids⟩
  · have unread := Params.number?_eq_none_iff.mpr nothing
    refine ⟨fun i => phaseDeg_of_shared base plain forward unread,
      fun i => phaseDeg_succ_sub base plain forward unread,
      pairwise_phaseDeg base plain forward unread, fun m hm => ?_⟩
    obtain ⟨i, inside, rfl⟩ := List.mem_iff_getElem.mp hm
    exact (within forward inside).mem.2
  · rw [← waveSpacing_of_writes written ids.length]
    exact within forward inside

omit [ExactReading] in
/-- Three heads in a wave that nobody spaced, and in one whose second step goes past the turn. -/
theorem distribute_wave_runs_of_three_heads :
    letI := ExactReading.parabolic
    let ids := ["MH1", "MH2", "MH3"]
    let base : Movement ℚ := .ofPattern "circle" .slow
    let unspaced : Params := [("phase_spacing", .string (some "auto"))]
    let spaced : Params := [("phase_spacing", .number (some (.whole 200)))]
    let backward : Params := ("direction", .string (some "reverse")) :: spaced
    base.phaseDeg = 0 ∧
    (¬Backward unspaced ∧ (∀ x, ¬unspaced.Writes "phase_spacing" x) ∧
      ∀ (i : Nat) (inside : i < (wave.distribute unspaced base ids).length),
        (wave.distribute unspaced base ids)[i].phaseDeg = i * 360 / ids.length) ∧
    (¬Backward spaced ∧ spaced.Writes "phase_spacing" (JsonNumber.whole 200).toFloat ∧
      ∀ (i : Nat) (inside : i < (wave.distribute spaced base ids).length),
        IsPhase (i * Scalar.ofFloat (JsonNumber.whole 200).toFloat)
          (wave.distribute spaced base ids)[i].phaseDeg) ∧
    (Backward backward ∧
      wave.distribute backward base ids = (wave.distribute spaced base ids).reverse) := by
  let reading := ExactReading.parabolic
  intro ids base unspaced spaced backward
  have plain : base.phaseDeg = 0 := rfl
  have forward : ¬Backward unspaced := by decide
  have forward' : ¬Backward spaced := by decide
  have turned : Backward backward := by decide
  have nothing : ∀ x, ¬unspaced.Writes "phase_spacing" x := by
    rintro x (number | ⟨text, spelled⟩)
    · cases number
    · cases text
      cases spelled
  have written : spaced.Writes "phase_spacing" (JsonNumber.whole 200).toFloat := .number rfl
  obtain ⟨-, -, shared, -, -⟩ := distribute_wave_runs base unspaced plain ids
  obtain ⟨-, -, -, phases, -⟩ := distribute_wave_runs base spaced plain ids
  obtain ⟨-, -, -, -, reversed⟩ := distribute_wave_runs base backward plain ids
  exact ⟨plain, ⟨forward, nothing, (shared forward nothing).1⟩,
    ⟨forward', written, phases forward' _ written⟩, turned, reversed turned spaced forward' rfl⟩

end Formation

end MovingLight
