import Mathlib.Data.List.Basic
import MovingLight.Proofs.Segment
import MovingLight.Proofs.Show

/-!
# Agreement — shows that no head can tell apart

The effects of a whole plan go through one list before they are divided among the
heads, and each head looks only at its own. `Timeline.AgreeByHead` says of two such
lists that every head finds the same effects in both, in the same order. Nothing
later can tell them apart: tags depend on which effects there are and not on where
they stand (`AgreeByHead.tag`), and dividing looks at one head at a time
(`AgreeByHead.divided_eq`).

`Plan.render_congr` lifts this to plans whose sections agree one by one. Its use here
is the order of instructions. Two instructions for different heads make effects that
no head has both of, so it does not matter which of them comes first
(`Plan.render_swap`); for heads they share it does, because of two effects with one
start the later one counts.
-/

namespace MovingLight

variable {α : Type}

namespace Timeline

/-! ## Lists of effects -/

/-- **Two lists of effects agree head by head**: every head finds its own effects in both, in the
same order. -/
def AgreeByHead (xs ys : List (Effect α)) : Prop :=
  ∀ id, xs.filter (·.fixtureId == id) = ys.filter (·.fixtureId == id)

variable {xs ys : List (Effect α)}

theorem AgreeByHead.refl (xs : List (Effect α)) : AgreeByHead xs xs := fun _ => rfl

theorem AgreeByHead.append {xs' ys' : List (Effect α)} (h : AgreeByHead xs ys)
    (h' : AgreeByHead xs' ys') : AgreeByHead (xs ++ xs') (ys ++ ys') := fun id => by
  rw [List.filter_append, List.filter_append, h id, h' id]

/-- Agreement piece by piece. -/
theorem agreeByHead_flatMap {β γ : Type} {f : β → List (Effect α)} {g : γ → List (Effect α)}
    {l : List β} {l' : List γ} (h : List.Forall₂ (fun b c => AgreeByHead (f b) (g c)) l l') :
    AgreeByHead (l.flatMap f) (l'.flatMap g) := by
  induction h with
  | nil => exact .refl []
  | cons first _ ih =>
    rw [List.flatMap_cons, List.flatMap_cons]
    exact first.append ih

/-- A head none of whose effects is in a list finds nothing in it. -/
theorem filter_eq_nil_of_ne {id : String} (h : ∀ x ∈ xs, x.fixtureId ≠ id) :
    xs.filter (·.fixtureId == id) = [] :=
  List.filter_eq_nil_iff.mpr fun x hx same => h x hx (eq_of_beq same)

/-- **Effects for different heads may change places.** -/
theorem agreeByHead_append_comm (apart : ∀ x ∈ xs, ∀ y ∈ ys, x.fixtureId ≠ y.fixtureId) :
    AgreeByHead (xs ++ ys) (ys ++ xs) := by
  intro id
  rw [List.filter_append, List.filter_append]
  by_cases h : ∃ x ∈ xs, x.fixtureId = id
  · obtain ⟨x, hx, rfl⟩ := h
    have none_there : ys.filter (·.fixtureId == x.fixtureId) = [] :=
      filter_eq_nil_of_ne fun y hy same => apart x hx y hy same.symm
    rw [none_there, List.append_nil, List.nil_append]
  · have none_here : xs.filter (·.fixtureId == id) = [] :=
      filter_eq_nil_of_ne fun x hx same => h ⟨x, hx, same⟩
    rw [none_here, List.append_nil, List.nil_append]

theorem AgreeByHead.mem_iff (h : AgreeByHead xs ys) {e : Effect α} : e ∈ xs ↔ e ∈ ys := by
  have own (l : List (Effect α)) : e ∈ l ↔ e ∈ l.filter (·.fixtureId == e.fixtureId) := by
    rw [List.mem_filter, and_iff_left (beq_self_eq_true _)]
  rw [own xs, own ys, h e.fixtureId]

/-! ## Tags -/

section Extent

variable (h : ∀ e, e ∈ xs ↔ e ∈ ys)

include h

/-- A projection takes the same values over lists of the same effects. -/
private theorem mem_map_ofSection (id : String) (f : Effect α → Nat) (n : Nat) :
    n ∈ (ofSection xs id).map f ↔ n ∈ (ofSection ys id).map f := by
  unfold ofSection
  simp only [List.mem_map, List.mem_filter, h]

theorem sectionStart_congr : sectionStart xs = sectionStart ys := by
  funext id
  have same : ((ofSection xs id).map (·.startMs)).min? = ((ofSection ys id).map (·.startMs)).min? :=
    Option.ext fun n => by
      rw [List.min?_eq_some_iff, List.min?_eq_some_iff]
      simp only [mem_map_ofSection h]
  rw [sectionStart, same, sectionStart]

theorem sectionEnd_congr : sectionEnd xs = sectionEnd ys := by
  funext id
  have same : ((ofSection xs id).map (·.endMs)).max? = ((ofSection ys id).map (·.endMs)).max? :=
    Option.ext fun n => by
      rw [List.max?_eq_some_iff, List.max?_eq_some_iff]
      simp only [mem_map_ofSection h]
  rw [sectionEnd, same, sectionEnd]

end Extent

/-- **Tags do not depend on the order of effects**, and leave each effect with its head. -/
theorem AgreeByHead.tag (h : AgreeByHead xs ys) (sections : List Span) :
    AgreeByHead (tag sections xs) (tag sections ys) := by
  intro id
  unfold Timeline.tag
  rw [sectionStart_congr fun _ => h.mem_iff, sectionEnd_congr fun _ => h.mem_iff,
    List.filter_map, List.filter_map]
  exact congrArg _ (h id)

/-! ## Dividing -/

/-- **Dividing looks at one head at a time.** -/
theorem AgreeByHead.divided_eq (h : AgreeByHead xs ys) (heads : List (Fixture α)) :
    Plan.divided xs heads = Plan.divided ys heads := by
  induction heads generalizing xs ys with
  | nil => rfl
  | cons f rest ih =>
    have others : AgreeByHead (xs.filter fun e => !(e.fixtureId == f.id))
        (ys.filter fun e => !(e.fixtureId == f.id)) := by
      intro id
      rw [List.filter_comm, h id, List.filter_comm]
    rw [Plan.divided, Plan.divided, h f.id, ih others]

end Timeline

variable [Scalar α]

/-! ## Steps -/

namespace Plan

/-- The effects of one step of a section; a step whose target cannot be found has none. -/
def stepEffects (rig : Rig α) (settings : Settings α) (within : Span) (look : Appearance α)
    (step : Step α) : List (Effect α) :=
  match Segment.render rig settings within look step with
  | .ok effects => effects
  | .error _ => []

theorem sectionEffects_eq_flatMap (p : Plan α) (rig : Rig α) (settings : Settings α)
    (s : PlanSection α) (steps : List (Step α)) :
    p.sectionEffects rig settings s steps =
      steps.flatMap (stepEffects rig settings s.span
        (Appearance.resolve (p.appearances.lookup s.id))) := rfl

/-- The effects of one step are what it renders to. -/
theorem exists_render_of_mem_stepEffects {rig : Rig α} {settings : Settings α} {within : Span}
    {look : Appearance α} {step : Step α} {e : Effect α}
    (he : e ∈ stepEffects rig settings within look step) :
    ∃ effects, Segment.render rig settings within look step = .ok effects ∧ e ∈ effects := by
  unfold stepEffects at he
  split at he
  · rename_i rendered
    exact ⟨_, rendered, he⟩
  · exact absurd he List.not_mem_nil

/-- An effect of a step is for one of the heads that its target names. -/
theorem exists_resolve_of_mem_stepEffects {rig : Rig α} {settings : Settings α} {within : Span}
    {look : Appearance α} {step : Step α} {e : Effect α}
    (he : e ∈ stepEffects rig settings within look step) :
    ∃ ids, Target.resolve rig step.target = .ok ids ∧ e.fixtureId ∈ ids := by
  obtain ⟨effects, rendered, he⟩ := exists_render_of_mem_stepEffects he
  obtain ⟨-, ids, f, g, own, m, resolved, mem, -, -, rfl⟩ :=
    Segment.exists_headEffect_of_mem_render rendered he
  exact ⟨ids, resolved, mem⟩

/-- **Two targets name different heads**, as far as they name any. -/
def TargetsApart (rig : Rig α) (a b : String) : Prop :=
  ∀ ids ids', Target.resolve rig a = .ok ids → Target.resolve rig b = .ok ids' →
    ids.Disjoint ids'

/-- Two steps for different heads may change places. -/
theorem stepEffects_comm {rig : Rig α} (settings : Settings α) (within : Span)
    (look : Appearance α) {a b : Step α} (apart : TargetsApart rig a.target b.target) :
    Timeline.AgreeByHead
      (stepEffects rig settings within look a ++ stepEffects rig settings within look b)
      (stepEffects rig settings within look b ++ stepEffects rig settings within look a) := by
  refine Timeline.agreeByHead_append_comm fun x hx y hy same => ?_
  obtain ⟨ids, resolved, mem⟩ := exists_resolve_of_mem_stepEffects hx
  obtain ⟨ids', resolved', mem'⟩ := exists_resolve_of_mem_stepEffects hy
  rw [same] at mem
  exact apart ids ids' resolved resolved' mem mem'

/-! ## Plans -/

/-- All effects of a section; one that cannot be used has none. -/
def effectsOf (p : Plan α) (rig : Rig α) (settings : Settings α) (s : PlanSection α) :
    List (Effect α) :=
  ((p.usable? s).map (p.sectionEffects rig settings s)).getD []

section Congruence

variable {p q : Plan α} {rig : Rig α} {settings : Settings α}

/-- What is rendered is the effects of all sections. -/
theorem flatMap_usableSections (p : Plan α) :
    p.usableSections.flatMap (fun u => p.sectionEffects rig settings u.1 u.2) =
      p.sections.flatMap (p.effectsOf rig settings) := by
  unfold usableSections
  induction p.sections with
  | nil => rfl
  | cons s rest ih =>
    rw [List.filterMap_cons, List.flatMap_cons, ← ih, effectsOf]
    cases p.usable? s <;> rfl

theorem map_usableSections {β : Type} (p : Plan α) (f : PlanSection α → β) :
    p.usableSections.map (fun u => f u.1) =
      (p.sections.filter fun s => (p.usable? s).isSome).map f := by
  unfold usableSections
  induction p.sections with
  | nil => rfl
  | cons s rest ih =>
    rw [List.filterMap_cons, List.filter_cons]
    cases p.usable? s with
    | none => exact ih
    | some steps => exact congrArg (f s :: ·) ih

/-- **Two sections come to the same** in their plans: they have one span, both can be used or
neither can, and their effects agree head by head. -/
structure SameSection (p q : Plan α) (rig : Rig α) (settings : Settings α)
    (s t : PlanSection α) : Prop where
  span : s.span = t.span
  usable : (p.usable? s).isSome = (q.usable? t).isSome
  effects : Timeline.AgreeByHead (p.effectsOf rig settings s) (q.effectsOf rig settings t)

/-- What is kept of two lists that are related item by item is the same where the relation decides
both what is kept and what of it counts. -/
private theorem map_filter_congr {β γ : Type} {R : β → β → Prop} {l l' : List β}
    (h : List.Forall₂ R l l') {keep keep' : β → Bool} {f : β → γ}
    (same : ∀ b c, R b c → keep b = keep' c ∧ f b = f c) :
    (l.filter keep).map f = (l'.filter keep').map f := by
  induction h with
  | nil => rfl
  | @cons b c _ _ hbc _ ih =>
    obtain ⟨kept, value⟩ := same b c hbc
    rw [List.filter_cons, List.filter_cons, kept]
    split
    · rw [List.map_cons, List.map_cons, ih, value]
    · exact ih

/-- **Plans whose sections come to the same render to the same show**, or fail alike. -/
theorem render_congr (song : p.songMs = q.songMs)
    (same : List.Forall₂ (SameSection p q rig settings) p.sections q.sections) :
    p.render rig settings = q.render rig settings := by
  have spans : p.usableSections.map (·.1.span) = q.usableSections.map (·.1.span) := by
    rw [p.map_usableSections, q.map_usableSections]
    exact map_filter_congr same fun s t h => ⟨h.usable, h.span⟩
  have duration : p.songDurationMs = q.songDurationMs := by
    have ends : p.sections.map (·.endMs) = q.sections.map (·.endMs) := by
      rw [← List.forall₂_eq_eq_eq, List.forall₂_map_left_iff, List.forall₂_map_right_iff]
      exact same.imp fun s t h => congrArg Span.endMs h.span
    rw [songDurationMs, songDurationMs, song, ends]
  have skipped : p.unusableIds = q.unusableIds :=
    map_filter_congr same fun s t h => by
      refine ⟨?_, congrArg Span.id h.span⟩
      rw [← Option.not_isSome, ← Option.not_isSome, h.usable]
  have none_usable : p.usableSections.isEmpty = q.usableSections.isEmpty := by
    have empty := congrArg List.isEmpty spans
    rwa [List.isEmpty_map, List.isEmpty_map] at empty
  have sequenced : Timeline.AgreeByHead (p.sequenced rig settings) (q.sequenced rig settings) := by
    unfold Plan.sequenced
    rw [flatMap_usableSections, flatMap_usableSections, spans]
    exact (Timeline.agreeByHead_flatMap (same.imp fun s t h => h.effects)).tag _
  unfold render
  rw [none_usable, duration, skipped, sequenced.divided_eq]

end Congruence

/-! ## The order of instructions -/

/-- Two neighbouring instructions for different heads may change places, step by step. -/
theorem sectionEffects_swap (p : Plan α) {rig : Rig α} (settings : Settings α) (s : PlanSection α)
    (steps : List (Step α)) (early late : List (Instruction α)) {a b : Instruction α}
    (apart : TargetsApart rig a.target b.target) :
    Timeline.AgreeByHead
      (p.sectionEffects rig settings s (instructed (early ++ a :: b :: late) steps))
      (p.sectionEffects rig settings s (instructed (early ++ b :: a :: late) steps)) := by
  have some_left (c d : Instruction α) :
      instructed (early ++ c :: d :: late) steps =
        steps.flatMap fun s => (early ++ c :: d :: late).map s.withInstruction :=
    if_neg (by simp)
  rw [some_left, some_left, sectionEffects_eq_flatMap,
    sectionEffects_eq_flatMap, List.flatMap_assoc, List.flatMap_assoc]
  refine Timeline.agreeByHead_flatMap (List.forall₂_same.mpr fun step _ => ?_)
  rw [List.map_append, List.map_append, List.flatMap_append, List.flatMap_append]
  refine (Timeline.AgreeByHead.refl _).append ?_
  rw [List.map_cons, List.map_cons, List.map_cons, List.map_cons, List.flatMap_cons,
    List.flatMap_cons, List.flatMap_cons, List.flatMap_cons, ← List.append_assoc,
    ← List.append_assoc]
  have swapped := stepEffects_comm settings s.span
    (Appearance.resolve (p.appearances.lookup s.id)) (a := step.withInstruction a)
    (b := step.withInstruction b) apart
  exact swapped.append (.refl _)

/-- The steps of a section before any instruction is laid over them: those of its template, or one
for the whole section. -/
def bareSteps? (p : Plan α) (s : PlanSection α) : Option (List (Step α)) :=
  if s.endMs ≤ s.startMs then none
  else
    match s.template with
    | some id => (p.template? id).map (·.steps)
    | none => some [Step.wholeSection]

/-- A section with instructions can be used if there are steps to lay them over. -/
theorem usable?_of_instructions (p : Plan α) {s : PlanSection α} (h : s.instructions ≠ []) :
    p.usable? s = (p.bareSteps? s).map (instructed s.instructions) := by
  have some_left : ¬s.instructions.isEmpty = true := by rwa [List.isEmpty_iff]
  unfold usable? bareSteps? steps?
  rw [if_neg some_left]
  split
  · rfl
  · cases s.template with
    | none => rfl
    | some id =>
      dsimp only
      rw [Option.map_map]
      rfl

/-- **Instructions for different heads may be given in either order.** -/
theorem render_swap (p : Plan α) (rig : Rig α) (settings : Settings α)
    {before after : List (PlanSection α)} {s : PlanSection α} {early late : List (Instruction α)}
    {a b : Instruction α} (sections : p.sections = before ++ s :: after)
    (instructions : s.instructions = early ++ a :: b :: late)
    (apart : TargetsApart rig a.target b.target) :
    Plan.render
        { p with
          sections := before ++ { s with instructions := early ++ b :: a :: late } :: after }
        rig settings =
      p.render rig settings := by
  let swapped : PlanSection α := { s with instructions := early ++ b :: a :: late }
  let q : Plan α := { p with sections := before ++ swapped :: after }
  have others (t : PlanSection α) : SameSection p q rig settings t t := ⟨rfl, rfl, .refl _⟩
  have usable : p.usable? s = (p.bareSteps? s).map (instructed (early ++ a :: b :: late)) := by
    rw [p.usable?_of_instructions (by simp [instructions]), instructions]
  have usable' : q.usable? swapped = (p.bareSteps? s).map (instructed swapped.instructions) :=
    q.usable?_of_instructions (by simp [swapped])
  have here : SameSection p q rig settings s swapped := by
    refine ⟨rfl, ?_, ?_⟩
    · rw [usable, usable', Option.isSome_map, Option.isSome_map]
    · unfold effectsOf
      rw [usable, usable']
      cases p.bareSteps? s with
      | none => exact .refl []
      | some steps => exact p.sectionEffects_swap settings s steps early late apart
  have same : List.Forall₂ (SameSection p q rig settings) p.sections q.sections := by
    rw [sections]
    exact List.rel_append (List.forall₂_same.mpr fun t _ => others t)
      (.cons here (List.forall₂_same.mpr fun t _ => others t))
  have alike : p.render rig settings = q.render rig settings := render_congr rfl same
  exact alike.symm

/-- Two instructions of a template's step, each for one of two heads. -/
theorem render_swap_of_two_heads :
    let sweep (target : String) : Instruction Float32 :=
      ⟨target, { movement := some ⟨"sweep_lr", "smooth", none, none⟩ }⟩
    let verse (instructions : List (Instruction Float32)) : PlanSection Float32 :=
      ⟨"verse", 1000, 4000, some "long", none, none, instructions⟩
    let p (instructions : List (Instruction Float32)) : Plan Float32 := {
      songMs := some 5000
      sections := [verse instructions]
      templates := [⟨"long", [⟨"", 0, 1, "ALL", {}⟩]⟩]
      appearances := [] }
    let rig : Rig Float32 := .ofFixtures [{ id := "MH1" }, { id := "MH2" }]
    TargetsApart rig "MH1" "MH2" ∧
      (p [sweep "MH2", sweep "MH1"]).render rig .standard =
        (p [sweep "MH1", sweep "MH2"]).render rig .standard := by
  intro sweep verse p rig
  have apart : TargetsApart rig "MH1" "MH2" := by
    intro ids ids' first second
    cases first.symm.trans (show Target.resolve rig "MH1" = .ok ["MH1"] by decide +kernel)
    cases second.symm.trans (show Target.resolve rig "MH2" = .ok ["MH2"] by decide +kernel)
    simp
  refine ⟨apart, ?_⟩
  have one : (verse [sweep "MH1", sweep "MH2"]).instructions =
      [] ++ sweep "MH1" :: sweep "MH2" :: [] := rfl
  have listed : (p [sweep "MH1", sweep "MH2"]).sections =
      [] ++ verse [sweep "MH1", sweep "MH2"] :: [] := rfl
  have swapped := render_swap (p [sweep "MH1", sweep "MH2"]) rig .standard listed one apart
  exact swapped

end Plan

end MovingLight
