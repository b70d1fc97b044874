import Mathlib.Data.List.Find
import Mathlib.Order.Interval.Set.Disjoint
import MovingLight.Proofs.Scalar.Share
import MovingLight.Proofs.Show.Agreement
import MovingLight.Proofs.Timeline.Overlap

/-!
# Order — sections may be listed in any order

A plan lists its sections, and rendering goes through the list. Where the sections have
ids of their own and no two of them are ever on together, the order of the list does not
matter (`Plan.render_perm`): the show is the same, but for the order in which the
skipped sections are told.

Order is lost and kept at two places. Effects of one start are told apart by their order
alone, since the last of them counts; `Timeline.AgreeByStart` says of two lists that they
have the same effects at each start, in the same order, and that is all that resolving
overlaps looks at (`AgreeByStart.resolveOverlaps_eq`). And a step must start in its own
section, or else an effect of another section might start with it:
`Step.window_inside` says that rounding never carries a step beyond the end of its
section.
-/

namespace MovingLight

variable {α : Type}

namespace Timeline

/-! ## Effects of one start -/

/-- **Two lists of effects agree start by start**: at every time, the same effects start in both,
in the same order. -/
def AgreeByStart (xs ys : List (Effect α)) : Prop :=
  ∀ time, xs.filter (·.startMs = time) = ys.filter (·.startMs = time)

variable {xs ys : List (Effect α)}

theorem AgreeByStart.mem_iff (h : AgreeByStart xs ys) {e : Effect α} : e ∈ xs ↔ e ∈ ys := by
  have own (l : List (Effect α)) : e ∈ l ↔ e ∈ l.filter (·.startMs = e.startMs) := by
    rw [List.mem_filter, and_iff_left (decide_eq_true rfl)]
  rw [own xs, own ys, h e.startMs]

theorem AgreeByStart.filter (h : AgreeByStart xs ys) (keep : Effect α → Bool) :
    AgreeByStart (xs.filter keep) (ys.filter keep) := fun time => by
  rw [List.filter_comm, h time, List.filter_comm]

theorem AgreeByStart.map (h : AgreeByStart xs ys) {f : Effect α → Effect α}
    (start : ∀ e, (f e).startMs = e.startMs) : AgreeByStart (xs.map f) (ys.map f) := by
  intro time
  have same : (fun e : Effect α => decide (e.startMs = time)) ∘ f =
      fun e => decide (e.startMs = time) := by
    funext e
    rw [Function.comp_apply, start]
  rw [List.filter_map, List.filter_map, same, h time]

/-- A sum of pieces does not depend on their order where there is one piece at most. -/
theorem flatMap_eq_of_perm {β γ : Type} {f : β → List γ} {l l' : List β} (h : l.Perm l')
    (one : l.Pairwise fun b c => f b = [] ∨ f c = []) : l.flatMap f = l'.flatMap f := by
  induction h with
  | nil => rfl
  | cons b _ ih => rw [List.flatMap_cons, List.flatMap_cons, ih one.of_cons]
  | swap b c l =>
    simp only [List.flatMap_cons]
    rcases List.rel_of_pairwise_cons one List.mem_cons_self with none | none <;> simp [none]
  | trans first _ ih ih' =>
    exact (ih one).trans (ih' ((first.pairwise_iff Or.symm).mp one))

/-- **Pieces that have no start in common may be listed in any order.** -/
theorem agreeByStart_flatMap {β : Type} {f : β → List (Effect α)} {l l' : List β}
    (h : l.Perm l')
    (apart : l.Pairwise fun b c => ∀ x ∈ f b, ∀ y ∈ f c, x.startMs ≠ y.startMs) :
    AgreeByStart (l.flatMap f) (l'.flatMap f) := by
  intro time
  rw [List.filter_flatMap, List.filter_flatMap]
  refine flatMap_eq_of_perm h (apart.imp fun {b c} differ => ?_)
  by_contra both
  rw [not_or] at both
  obtain ⟨x, hx⟩ := List.exists_mem_of_ne_nil _ both.1
  obtain ⟨y, hy⟩ := List.exists_mem_of_ne_nil _ both.2
  obtain ⟨memx, startx⟩ := List.mem_filter.mp hx
  obtain ⟨memy, starty⟩ := List.mem_filter.mp hy
  exact differ x memx y memy ((of_decide_eq_true startx).trans (of_decide_eq_true starty).symm)

/-- Tags depend on the order neither of effects nor of sections, as long as an id finds the same
section. -/
theorem AgreeByStart.tag (h : AgreeByStart xs ys) {sections sections' : List Span}
    (found : ∀ id, sections.find? (·.id == id) = sections'.find? (·.id == id)) :
    AgreeByStart (tag sections xs) (tag sections' ys) := by
  unfold Timeline.tag
  rw [sectionStart_congr fun _ => h.mem_iff, sectionEnd_congr fun _ => h.mem_iff]
  simp only [found]
  exact h.map fun _ => rfl

section Head

variable [Scalar α]

/-- **Resolving overlaps looks at one start at a time.** -/
theorem AgreeByStart.resolveOverlaps_eq (h : AgreeByStart xs ys) (count : Nat) :
    resolveOverlaps count xs = resolveOverlaps count ys := by
  have last (time : Nat) : lastAt? xs time = lastAt? ys time := by
    unfold lastAt?
    simp only [Bool.decide_and, ← List.filter_filter, h.filter _ time]
  have next (time : Nat) : nextStart? xs time = nextStart? ys time :=
    nextStart?_congr (fun _ _ => h.mem_iff) time
  obtain ⟨increasing, starts, kept⟩ := resolves_resolveOverlaps count xs
  simp only [h.mem_iff] at starts
  simp only [last, next] at kept
  have resolves : Resolves count ys (resolveOverlaps count xs) := ⟨increasing, starts, kept⟩
  exact resolves.unique (resolves_resolveOverlaps count ys)

theorem AgreeByStart.ofOwn_eq (h : AgreeByStart xs ys) (settings : Settings α) (songMs : Nat)
    (f : Fixture α) :
    HeadTimeline.ofOwn settings songMs f xs = HeadTimeline.ofOwn settings songMs f ys := by
  unfold HeadTimeline.ofOwn fill
  rw [h.resolveOverlaps_eq]

/-- Every head gets the same timeline from effects that agree start by start. -/
theorem AgreeByStart.divided_eq (h : AgreeByStart xs ys) (settings : Settings α) (songMs : Nat)
    (heads : List (Fixture α)) :
    (Plan.divided xs heads).map (fun d => HeadTimeline.ofOwn settings songMs d.1 d.2) =
      (Plan.divided ys heads).map fun d => HeadTimeline.ofOwn settings songMs d.1 d.2 := by
  induction heads generalizing xs ys with
  | nil => rfl
  | cons f rest ih =>
    rw [Plan.divided, Plan.divided, List.map_cons, List.map_cons, (h.filter _).ofOwn_eq,
      ih (h.filter _)]

end Head

end Timeline

/-! ## Steps start in their section -/

section Inside

variable [Scalar α] [Scalar.ShareLaws α]

/-- **A step stays inside its section.** -/
theorem Step.window_inside (step : Step α) {within : Span}
    (forwards : within.startMs ≤ within.endMs) (short : within.durationMs < 2 ^ 29) :
    within.startMs ≤ (step.window within).1 ∧ (step.window within).2 ≤ within.endMs := by
  have start := Scalar.ShareLaws.share_le step.start within.durationMs short
  have finish := Scalar.ShareLaws.share_le step.finish within.durationMs short
  have length : within.durationMs = within.endMs - within.startMs := rfl
  unfold Step.window
  dsimp only
  omega

/-- The effects of a section take time, and take it inside the section. -/
theorem Plan.inside_of_mem_effectsOf {p : Plan α} {rig : Rig α} {settings : Settings α}
    {s : PlanSection α} (short : s.durationMs < 2 ^ 29) {e : Effect α}
    (he : e ∈ p.effectsOf rig settings s) :
    s.startMs ≤ e.startMs ∧ e.startMs < e.endMs ∧ e.endMs ≤ s.endMs := by
  unfold effectsOf usable? at he
  split at he
  · exact absurd he List.not_mem_nil
  · rename_i lasts
    cases known : p.steps? s with
    | none =>
      rw [known] at he
      exact absurd he List.not_mem_nil
    | some steps =>
      rw [known, Option.map_some, Option.getD_some, sectionEffects_eq_flatMap] at he
      obtain ⟨step, -, he⟩ := List.mem_flatMap.mp he
      obtain ⟨effects, rendered, he⟩ := exists_render_of_mem_stepEffects he
      obtain ⟨takes_time, -, f, -, -, -, -, -, -, -, rfl⟩ :=
        Segment.exists_headEffect_of_mem_render rendered he
      have forwards : s.span.startMs ≤ s.span.endMs := (Nat.lt_of_not_le lasts).le
      have inside := step.window_inside forwards short
      exact ⟨inside.1, takes_time, inside.2⟩

end Inside

/-! ## Plans -/

/-- **Two sections are never on together.** A section that takes no time is never on. -/
def PlanSection.Apart (s t : PlanSection α) : Prop :=
  Disjoint (Set.Ico s.startMs s.endMs) (Set.Ico t.startMs t.endMs)

instance (s t : PlanSection α) : Decidable (s.Apart t) :=
  decidable_of_iff (min s.endMs t.endMs ≤ max s.startMs t.startMs) Set.Ico_disjoint_Ico.symm

/-- Two shows are played alike: they are the same but for the order in which skipped sections are
told. -/
structure Show.Alike (a b : Show α) : Prop where
  songMs : a.songMs = b.songMs
  timelines : a.timelines = b.timelines
  skipped : a.skipped.Perm b.skipped

/-- **Two plans come out alike**: both fail for the same reason, or both render to shows that are
played alike. -/
inductive Show.OutcomesAlike : Except ShowError (Show α) → Except ShowError (Show α) → Prop
  | error (e : ShowError) : OutcomesAlike (.error e) (.error e)
  | ok {a b : Show α} (alike : a.Alike b) : OutcomesAlike (.ok a) (.ok b)

namespace Plan

variable {p : Plan α} {sections : List (PlanSection α)}

theorem songDurationMs_perm (perm : p.sections.Perm sections) :
    Plan.songDurationMs { p with sections } = p.songDurationMs := by
  unfold songDurationMs
  have ends := (perm.map (·.endMs)).foldl_eq (f := max) 0
  rw [ends]

variable [Scalar α]

/-- An id finds the same section, in whatever order they are listed. -/
theorem find?_usableSpans_perm (perm : p.sections.Perm sections)
    (ids : (p.sections.map (·.id)).Nodup) (id : String) :
    (p.usableSections.map (·.1.span)).find? (·.id == id) =
      ((Plan.usableSections { p with sections }).map (·.1.span)).find? (·.id == id) := by
  have spans : (p.usableSections.map (·.1.span)).Perm
      ((Plan.usableSections { p with sections }).map (·.1.span)) :=
    (perm.filterMap _).map _
  refine List.find?_eq_find?_of_perm spans fun a ha b hb => ?_
  have kept : ((p.usableSections.map (·.1.span)).map (·.id)).Nodup := by
    rw [map_usableSections, List.map_map]
    exact ids.sublist (List.filter_sublist.map _)
  exact List.inj_on_of_nodup_map kept ha.1 hb.1
    ((eq_of_beq ha.2).trans (eq_of_beq hb.2).symm)

variable [Scalar.ShareLaws α]

/-- The effects of a plan agree start by start, in whatever order its sections are listed. -/
theorem sequenced_perm {rig : Rig α} {settings : Settings α} (perm : p.sections.Perm sections)
    (ids : (p.sections.map (·.id)).Nodup) (apart : p.sections.Pairwise PlanSection.Apart)
    (short : ∀ s ∈ p.sections, s.durationMs < 2 ^ 29) :
    Timeline.AgreeByStart (p.sequenced rig settings)
      (Plan.sequenced { p with sections } rig settings) := by
  unfold Plan.sequenced
  rw [flatMap_usableSections, flatMap_usableSections]
  refine Timeline.AgreeByStart.tag (Timeline.agreeByStart_flatMap perm ?_)
    (find?_usableSpans_perm perm ids)
  refine apart.imp_of_mem fun {s t} hs ht never x hx y hy same => ?_
  obtain ⟨from_s, x_lasts, by_s⟩ := inside_of_mem_effectsOf (short s hs) hx
  obtain ⟨from_t, y_lasts, by_t⟩ := inside_of_mem_effectsOf (short t ht) hy
  have in_s : x.startMs ∈ Set.Ico s.startMs s.endMs := ⟨from_s, x_lasts.trans_le by_s⟩
  have in_t : x.startMs ∈ Set.Ico t.startMs t.endMs := same ▸ ⟨from_t, y_lasts.trans_le by_t⟩
  exact Set.disjoint_left.mp never in_s in_t

/-- **Sections may be listed in any order**, where each has an id of its own and no two are on
together. -/
theorem render_perm (rig : Rig α) (settings : Settings α) (perm : p.sections.Perm sections)
    (ids : (p.sections.map (·.id)).Nodup) (apart : p.sections.Pairwise PlanSection.Apart)
    (short : ∀ s ∈ p.sections, s.durationMs < 2 ^ 29) :
    Show.OutcomesAlike (p.render rig settings)
      (Plan.render { p with sections } rig settings) := by
  have usable : p.usableSections.isEmpty = (Plan.usableSections { p with sections }).isEmpty := by
    have perm' : p.usableSections.Perm (Plan.usableSections { p with sections }) :=
      perm.filterMap _
    exact perm'.isEmpty_eq
  have skipped : p.unusableIds.Perm (Plan.unusableIds { p with sections }) :=
    (perm.filter _).map _
  unfold render
  rw [← usable]
  split
  · exact .error _
  · split
    · exact .error _
    · refine .ok ⟨(songDurationMs_perm perm).symm, ?_, skipped⟩
      rw [songDurationMs_perm perm]
      exact (sequenced_perm perm ids apart short).divided_eq settings _ _

/-- Three sections told backwards. The chorus starts as the verse ends, and the bridge between them
cannot be used. -/
theorem render_perm_of_three_sections :
    let sweep : Instruction Float32 :=
      ⟨"ALL", { movement := some ⟨"sweep_lr", "smooth", none, none⟩ }⟩
    let verse : PlanSection Float32 := ⟨"verse", 0, 2000, some "halves", none, none, [sweep]⟩
    let bridge : PlanSection Float32 := ⟨"bridge", 1500, 1500, none, none, none, [sweep]⟩
    let chorus : PlanSection Float32 := ⟨"chorus", 2000, 5000, none, none, none, [sweep]⟩
    let p : Plan Float32 := {
      songMs := none
      sections := [verse, bridge, chorus]
      templates := [⟨"halves", [⟨"", 0, 0.5, "ALL", {}⟩, ⟨"", 0.5, 1, "ALL", {}⟩]⟩]
      appearances := [] }
    let rig : Rig Float32 := .ofFixtures [{ id := "MH1" }, { id := "MH2" }]
    (p.sections.Perm [chorus, bridge, verse] ∧ (p.sections.map (·.id)).Nodup ∧
        p.sections.Pairwise PlanSection.Apart ∧ ∀ s ∈ p.sections, s.durationMs < 2 ^ 29) ∧
      Show.OutcomesAlike (p.render rig .standard)
        (Plan.render { p with sections := [chorus, bridge, verse] } rig .standard) := by
  intro sweep verse bridge chorus p rig
  have perm : p.sections.Perm [chorus, bridge, verse] := (List.reverse_perm p.sections).symm
  have ids : (p.sections.map (·.id)).Nodup := by decide
  have apart : p.sections.Pairwise PlanSection.Apart := by decide
  have short : ∀ s ∈ p.sections, s.durationMs < 2 ^ 29 := by decide
  exact ⟨⟨perm, ids, apart, short⟩, render_perm rig .standard perm ids apart short⟩

end Plan

end MovingLight
