import MovingLight.Proofs.Show.Agreement

/-!
# Failure — what stops a show, and what a failing step leaves behind

Rendering fails for two reasons only: the rig has no heads, or no section of the plan
can be used. `Plan.render_outcome` says when it does which, and which sections are
skipped otherwise; `Plan.Usable` is what it takes for a section to count.

Everything else that goes wrong goes wrong inside a step, whose target may name no head
of the rig. `Plan.DropsFailing` relates a plan to the same plan without such a step,
be it one that an instruction makes or one of a template, and
`Plan.DropsFailing.render_eq` says that the show is the same without it: spans, tags,
the length of the song and every head's effects are as if it had never been there.
-/

namespace MovingLight

variable {α : Type}

namespace Plan

/-! ## What can be used -/

/-- **A section can be used**: it takes time, and it names a template of the plan, or names none
and has an instruction. -/
def Usable (p : Plan α) (s : PlanSection α) : Prop :=
  s.startMs < s.endMs ∧
    match s.template with
    | some id => ∃ t ∈ p.templates, t.id = id
    | none => s.instructions ≠ []

variable [Scalar α]

theorem isSome_steps? (p : Plan α) (s : PlanSection α) :
    (p.steps? s).isSome = true ↔
      match s.template with
      | some id => ∃ t ∈ p.templates, t.id = id
      | none => s.instructions ≠ [] := by
  unfold steps?
  cases s.template with
  | some id => simp [template?]
  | none => cases s.instructions <;> simp

theorem isSome_usable? (p : Plan α) (s : PlanSection α) :
    (p.usable? s).isSome = true ↔ p.Usable s := by
  unfold usable? Usable
  rw [← isSome_steps?]
  split
  · rename_i empty
    simp [Nat.not_lt.mpr empty]
  · rename_i lasts
    simp [Nat.lt_of_not_le lasts]

instance (p : Plan α) : DecidablePred p.Usable := fun s =>
  decidable_of_iff _ (p.isSome_usable? s)

theorem usableSections_eq_nil (p : Plan α) :
    p.usableSections = [] ↔ ∀ s ∈ p.sections, ¬p.Usable s := by
  unfold usableSections
  simp [List.filterMap_eq_nil_iff, ← isSome_usable?]

theorem unusableIds_eq (p : Plan α) :
    p.unusableIds = (p.sections.filter fun s => ¬p.Usable s).map (·.id) := by
  unfold unusableIds
  have same (s : PlanSection α) : (p.usable? s).isNone = decide ¬p.Usable s := by
    rw [Bool.eq_iff_iff, decide_eq_true_iff, ← isSome_usable?, Option.not_isSome_iff_eq_none,
      Option.isNone_iff_eq_none]
  simp only [same]

/-- What rendering comes to where it fails: there is no head, or else no section to use. -/
theorem render_eq_error {p : Plan α} {rig : Rig α} {settings : Settings α} {e : ShowError} :
    p.render rig settings = .error e ↔
      (rig.fixtures = [] ∧ e = .noFixtures) ∨
        (rig.fixtures ≠ [] ∧ p.usableSections = [] ∧ e = .emptyPlan) := by
  unfold render
  simp only [List.isEmpty_iff]
  split
  · rename_i no_heads
    simp [no_heads, eq_comm (a := e)]
  · rename_i heads
    split
    · rename_i none_usable
      simp [heads, none_usable, eq_comm]
    · rename_i usable
      simp [heads, usable]

/-- **Only a rig without heads and a plan without a usable section fail**, in this order, and
whatever is rendered tells which sections could not be used. -/
theorem render_outcome (p : Plan α) (rig : Rig α) (settings : Settings α) :
    (p.render rig settings = .error .noFixtures ↔ rig.fixtures = []) ∧
      (p.render rig settings = .error .emptyPlan ↔
        rig.fixtures ≠ [] ∧ ∀ s ∈ p.sections, ¬p.Usable s) ∧
      ((∃ s, p.render rig settings = .ok s) ↔
        rig.fixtures ≠ [] ∧ ∃ s ∈ p.sections, p.Usable s) ∧
      (∀ s, p.render rig settings = .ok s →
        s.skipped = (p.sections.filter fun s => ¬p.Usable s).map (·.id)) ∧
      ∀ e, p.render rig settings = .error e → e = .noFixtures ∨ e = .emptyPlan := by
  refine ⟨?_, ?_, ?_, ?_, ?_⟩
  · rw [render_eq_error]
    simp
  · rw [render_eq_error, ← usableSections_eq_nil]
    simp
  · have some_usable : p.usableSections ≠ [] ↔ ∃ s ∈ p.sections, p.Usable s := by
      rw [Ne, usableSections_eq_nil]
      push Not
      rfl
    simp only [render_eq_ok, some_usable, exists_and_left, exists_eq, and_true]
  · intro s h
    obtain ⟨-, -, rfl⟩ := render_eq_ok.mp h
    exact p.unusableIds_eq
  · intro e h
    rcases render_eq_error.mp h with ⟨-, rfl⟩ | ⟨-, -, rfl⟩
    · exact .inl rfl
    · exact .inr rfl

end Plan

/-! ## Failing steps -/

/-- **A target cannot be found** on a rig. -/
def Target.Unresolvable (rig : Rig α) (spec : String) : Prop :=
  ∃ e, Target.resolve rig spec = .error e

namespace Plan

/-- **One plan is another without a step that fails**: without an instruction whose target cannot
be found, of a section that has others, or without a step of a template whose target cannot be
found, where no section lays instructions over that template. -/
inductive DropsFailing (rig : Rig α) : Plan α → Plan α → Prop
  | instruction {p : Plan α} {before after : List (PlanSection α)} {s : PlanSection α}
      {early late : List (Instruction α)} {i : Instruction α}
      (sections : p.sections = before ++ s :: after)
      (instructions : s.instructions = early ++ i :: late) (others : early ++ late ≠ [])
      (fails : Target.Unresolvable rig i.target) :
      DropsFailing rig p
        { p with sections := before ++ { s with instructions := early ++ late } :: after }
  | step {p : Plan α} {before after : List (Template α)} {t : Template α}
      {early late : List (Step α)} {step : Step α}
      (templates : p.templates = before ++ t :: after) (steps : t.steps = early ++ step :: late)
      (fails : Target.Unresolvable rig step.target)
      (bare : ∀ s ∈ p.sections, s.template = some t.id → (∀ u ∈ before, u.id ≠ t.id) →
        s.instructions = []) :
      DropsFailing rig p
        { p with templates := before ++ { t with steps := early ++ late } :: after }

/-- What a template holds does not decide which template is found under an id: with another in its
place, the same is found as before, or it is the one found itself. -/
theorem template?_replace {p : Plan α} {before after : List (Template α)} {t u : Template α}
    (templates : p.templates = before ++ t :: after) (same : u.id = t.id) (id : String) :
    Plan.template? { p with templates := before ++ u :: after } id = p.template? id ∨
      t.id = id ∧ (∀ v ∈ before, v.id ≠ id) ∧ p.template? id = some t ∧
        Plan.template? { p with templates := before ++ u :: after } id = some u := by
  unfold template?
  rw [templates, List.find?_append, List.find?_append]
  cases found : before.find? (·.id == id) with
  | some v => exact .inl rfl
  | none =>
    have unshadowed : ∀ v ∈ before, v.id ≠ id := by simpa using List.find?_eq_none.mp found
    by_cases here : t.id = id
    · exact .inr ⟨here, unshadowed, by simp [here], by simp [same, here]⟩
    · exact .inl (by simp [same, here])

variable [Scalar α] {rig : Rig α}

/-- A step whose target cannot be found has no effects. -/
theorem stepEffects_of_unresolvable (settings : Settings α) (within : Span) (look : Appearance α)
    {step : Step α} (fails : Target.Unresolvable rig step.target) :
    stepEffects rig settings within look step = [] := by
  refine List.eq_nil_iff_forall_not_mem.mpr fun e he => ?_
  obtain ⟨error, failed⟩ := fails
  obtain ⟨ids, resolved, -⟩ := exists_resolve_of_mem_stepEffects he
  rw [failed] at resolved
  cases resolved

/-- Among the steps of a section, one that fails may be left out. -/
theorem sectionEffects_drop_step (p : Plan α) (settings : Settings α) (s : PlanSection α)
    (early late : List (Step α)) {step : Step α} (fails : Target.Unresolvable rig step.target) :
    p.sectionEffects rig settings s (early ++ step :: late) =
      p.sectionEffects rig settings s (early ++ late) := by
  rw [sectionEffects_eq_flatMap, sectionEffects_eq_flatMap, List.flatMap_append,
    List.flatMap_append, List.flatMap_cons, stepEffects_of_unresolvable settings _ _ fails,
    List.nil_append]

/-- Among the instructions for a section, one that fails may be left out, whatever steps it is
laid over. -/
theorem sectionEffects_drop_instruction (p : Plan α) (settings : Settings α) (s : PlanSection α)
    (steps : List (Step α)) {early late : List (Instruction α)} {i : Instruction α}
    (others : early ++ late ≠ []) (fails : Target.Unresolvable rig i.target) :
    p.sectionEffects rig settings s (instructed (early ++ i :: late) steps) =
      p.sectionEffects rig settings s (instructed (early ++ late) steps) := by
  have all_left : instructed (early ++ i :: late) steps =
      steps.flatMap fun step => (early ++ i :: late).map step.withInstruction :=
    if_neg (by simp)
  have some_left : instructed (early ++ late) steps =
      steps.flatMap fun step => (early ++ late).map step.withInstruction :=
    if_neg (by rwa [List.isEmpty_iff])
  rw [all_left, some_left, sectionEffects_eq_flatMap, sectionEffects_eq_flatMap,
    List.flatMap_assoc, List.flatMap_assoc]
  congr 1
  funext step
  rw [List.map_append, List.map_append, List.map_cons]
  refine p.sectionEffects_drop_step settings s _ _ ?_
  exact fails

/-- A section comes to the same without an instruction that fails, among whatever sections. -/
theorem sameSection_without_instruction (p : Plan α) (settings : Settings α)
    (sections : List (PlanSection α)) {s : PlanSection α} {early late : List (Instruction α)}
    {i : Instruction α} (instructions : s.instructions = early ++ i :: late)
    (others : early ++ late ≠ []) (fails : Target.Unresolvable rig i.target) :
    SameSection p { p with sections } rig settings s
      { s with instructions := early ++ late } := by
  let less : PlanSection α := { s with instructions := early ++ late }
  let q : Plan α := { p with sections }
  have usable : p.usable? s = (p.bareSteps? s).map (instructed (early ++ i :: late)) := by
    rw [p.usable?_of_instructions (by simp [instructions]), instructions]
  have usable' : q.usable? less = (p.bareSteps? s).map (instructed (early ++ late)) :=
    q.usable?_of_instructions (s := less) others
  refine ⟨rfl, ?_, ?_⟩
  · rw [usable, usable', Option.isSome_map, Option.isSome_map]
  · unfold effectsOf
    rw [usable, usable']
    cases p.bareSteps? s with
    | none => exact .refl []
    | some steps =>
      have dropped := p.sectionEffects_drop_instruction settings s steps others fails
      exact fun id => congrArg _ dropped

/-- A section comes to the same without a step of its template that fails, where no instruction is
laid over it. -/
theorem sameSection_without_step {p : Plan α} (settings : Settings α)
    {before after : List (Template α)} {t : Template α} {early late : List (Step α)}
    {step : Step α} (templates : p.templates = before ++ t :: after)
    (steps : t.steps = early ++ step :: late) (fails : Target.Unresolvable rig step.target)
    {s : PlanSection α}
    (bare : s.template = some t.id → (∀ u ∈ before, u.id ≠ t.id) → s.instructions = []) :
    SameSection p { p with templates := before ++ { t with steps := early ++ late } :: after }
      rig settings s s := by
  let less : Template α := { t with steps := early ++ late }
  let q : Plan α := { p with templates := before ++ less :: after }
  have unchanged (h : q.steps? s = p.steps? s) : SameSection p q rig settings s s := by
    have usable : q.usable? s = p.usable? s := by rw [usable?, usable?, h]
    exact ⟨rfl, by rw [usable], fun id => by rw [effectsOf, effectsOf, usable]; rfl⟩
  cases named : s.template with
  | none => exact unchanged (by rw [steps?, steps?, named])
  | some id =>
    rcases template?_replace templates (show less.id = t.id from rfl) id with
      same | ⟨rfl, unshadowed, was, is⟩
    · exact unchanged (by simp only [steps?, named, q, same])
    · have alone := bare named unshadowed
      by_cases empty : s.endMs ≤ s.startMs
      · have usable : p.usable? s = none := if_pos empty
        have usable' : q.usable? s = none := if_pos empty
        refine ⟨rfl, by rw [usable, usable'], ?_⟩
        rw [effectsOf, effectsOf, usable, usable']
        exact .refl []
      · have usable : p.usable? s = some (early ++ step :: late) := by
          simp [usable?, empty, steps?, named, was, instructed, alone, steps]
        have usable' : q.usable? s = some (early ++ late) := by
          simp [usable?, empty, steps?, named, is, instructed, alone, q, less]
        refine ⟨rfl, by rw [usable, usable']; rfl, fun id => ?_⟩
        rw [effectsOf, effectsOf, usable, usable']
        exact congrArg _ (p.sectionEffects_drop_step settings s early late fails)

/-- **A failing step leaves nothing behind**: without it, the plan renders to the same show or
fails alike. -/
theorem DropsFailing.render_eq {p q : Plan α} (h : DropsFailing rig p q)
    (settings : Settings α) : q.render rig settings = p.render rig settings := by
  symm
  cases h with
  | instruction sections instructions others fails =>
    refine render_congr rfl ?_
    rw [sections]
    exact List.rel_append (List.forall₂_same.mpr fun t _ => ⟨rfl, rfl, .refl _⟩)
      (.cons (sameSection_without_instruction p settings _ instructions others fails)
        (List.forall₂_same.mpr fun t _ => ⟨rfl, rfl, .refl _⟩))
  | step templates steps fails bare =>
    refine render_congr rfl (List.forall₂_same.mpr fun s hs => ?_)
    exact sameSection_without_step settings templates steps fails (bare s hs)

/-- A step of a template and an instruction, each of them for heads that are not there. -/
theorem render_eq_of_absent_heads :
    let sweep (target : String) : Instruction Float32 :=
      ⟨target, { movement := some ⟨"sweep_lr", "smooth", none, none⟩ }⟩
    let step (target : String) : Step Float32 := ⟨"", 0, 1, target, {}⟩
    let verse : PlanSection Float32 := ⟨"verse", 0, 2000, some "long", none, none, []⟩
    let chorus (instructions : List (Instruction Float32)) : PlanSection Float32 :=
      ⟨"chorus", 2000, 4000, none, none, none, instructions⟩
    let p (steps : List (Step Float32)) (instructions : List (Instruction Float32)) :
        Plan Float32 := {
      songMs := some 5000
      sections := [verse, chorus instructions]
      templates := [⟨"long", steps⟩]
      appearances := [] }
    let rig : Rig Float32 := .ofFixtures [{ id := "MH1" }, { id := "MH2" }]
    let full := p [step "MH9", step "ALL"] [sweep "MH1", sweep "band"]
    (DropsFailing rig full (p [step "ALL"] [sweep "MH1", sweep "band"]) ∧
        DropsFailing rig full (p [step "MH9", step "ALL"] [sweep "MH1"])) ∧
      (p [step "ALL"] [sweep "MH1", sweep "band"]).render rig .standard =
        full.render rig .standard ∧
      (p [step "MH9", step "ALL"] [sweep "MH1"]).render rig .standard =
        full.render rig .standard := by
  intro sweep step verse chorus p rig full
  have no_head : Target.Unresolvable rig "MH9" := ⟨.unknownTarget "MH9", by decide +kernel⟩
  have no_group : Target.Unresolvable rig "band" := ⟨.unknownTarget "band", by decide +kernel⟩
  have templates : full.templates = [] ++ ⟨"long", [step "MH9", step "ALL"]⟩ :: [] := rfl
  have steps : (⟨"long", [step "MH9", step "ALL"]⟩ : Template Float32).steps =
      [] ++ step "MH9" :: [step "ALL"] := rfl
  have sections : full.sections = [verse] ++ chorus [sweep "MH1", sweep "band"] :: [] := rfl
  have instructions : (chorus [sweep "MH1", sweep "band"]).instructions =
      [sweep "MH1"] ++ sweep "band" :: [] := rfl
  have without_step : DropsFailing rig full (p [step "ALL"] [sweep "MH1", sweep "band"]) := by
    refine .step templates steps no_head fun s hs named _ => ?_
    rcases List.mem_pair.mp hs with h | h
    · exact congrArg PlanSection.instructions h
    · cases (congrArg PlanSection.template h).symm.trans named
  have without_instruction : DropsFailing rig full (p [step "MH9", step "ALL"] [sweep "MH1"]) :=
    .instruction sections instructions (List.cons_ne_nil _ _) no_group
  exact ⟨⟨without_step, without_instruction⟩, without_step.render_eq .standard,
    without_instruction.render_eq .standard⟩

end Plan

end MovingLight
