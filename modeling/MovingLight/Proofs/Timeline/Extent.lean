import Mathlib.Data.List.Forall2
import Mathlib.Order.Bounds.Basic
import MovingLight.Timeline.Tags

/-!
# Extents — from where to where a section is played

A section opens at the earliest start among its effects, whatever heads they are for, and closes
at the latest end. `Timeline.tag` looks for both anew at each effect. They can as well be gathered
beforehand, in one run through the effects of all sections: each effect widens the extent of its
own section and leaves the others alone (`Timeline.Gathers.widened`), so in whatever order the
effects come, what is gathered is the same, and so are the tags (`Timeline.tagByExtents_eq`).

What a tag is can be said without either. `Effect.Marked` is the only thing that tagging may do to
an effect: set two marks, and with each of them the transition that its section asks for. The
marks depend on spans and sections, which tagging leaves alone, so a second tagging finds them
set (`Timeline.tag_tag`).
-/

namespace MovingLight

variable {α : Type}

/-! ## Times of a section -/

/-- The times of one kind, such as starts, among the effects of a section. -/
def Timeline.timesOf (time : Effect α → Nat) (effects : List (Effect α)) (id : String) : Set Nat :=
  {t | ∃ e ∈ effects, e.boundary.sectionId = id ∧ time e = t}

namespace Timeline

variable {time : Effect α → Nat} {effects : List (Effect α)} {id : String}

theorem timesOf_append (xs ys : List (Effect α)) :
    timesOf time (xs ++ ys) id = timesOf time xs id ∪ timesOf time ys id := by
  ext t
  simp [timesOf, or_and_right, exists_or]

theorem timesOf_singleton_self (e : Effect α) :
    timesOf time [e] e.boundary.sectionId = {time e} := by
  ext t
  simp [timesOf, eq_comm]

theorem timesOf_singleton_of_ne {e : Effect α} (h : e.boundary.sectionId ≠ id) :
    timesOf time [e] id = ∅ := by
  ext t
  simp [timesOf, h]

theorem mem_map_ofSection_iff {t : Nat} :
    t ∈ (ofSection effects id).map time ↔ t ∈ timesOf time effects id := by
  simp [ofSection, timesOf, and_assoc]

theorem map_ofSection_ne_nil {e : Effect α} (he : e ∈ effects) (time : Effect α → Nat) :
    (ofSection effects e.boundary.sectionId).map time ≠ [] :=
  List.ne_nil_of_mem (mem_map_ofSection_iff.mpr ⟨e, he, rfl, rfl⟩)

/-- A section opens at its earliest start. -/
theorem isLeast_sectionStart {e : Effect α} (he : e ∈ effects) :
    IsLeast (timesOf (·.startMs) effects e.boundary.sectionId)
      (sectionStart effects e.boundary.sectionId) := by
  obtain ⟨t, found⟩ := Option.ne_none_iff_exists'.mp
    (List.min?_eq_none_iff.not.mpr (map_ofSection_ne_nil he (·.startMs)))
  obtain ⟨mem, least⟩ := List.min?_eq_some_iff.mp found
  rw [sectionStart, found]
  exact ⟨mem_map_ofSection_iff.mp mem, fun u hu => least u (mem_map_ofSection_iff.mpr hu)⟩

/-- A section closes at its latest end. -/
theorem isGreatest_sectionEnd {e : Effect α} (he : e ∈ effects) :
    IsGreatest (timesOf (·.endMs) effects e.boundary.sectionId)
      (sectionEnd effects e.boundary.sectionId) := by
  obtain ⟨t, found⟩ := Option.ne_none_iff_exists'.mp
    (List.max?_eq_none_iff.not.mpr (map_ofSection_ne_nil he (·.endMs)))
  obtain ⟨mem, greatest⟩ := List.max?_eq_some_iff.mp found
  rw [sectionEnd, found]
  exact ⟨mem_map_ofSection_iff.mp mem, fun u hu => greatest u (mem_map_ofSection_iff.mpr hu)⟩

/-! ## Extents gathered in one run -/

/-- The extents of sections, by their ids. -/
abbrev Extents := Std.HashMap String (Nat × Nat)

/-- The extents with that of one section widened by an effect. -/
def Extents.widened (x : Extents) (e : Effect α) : Extents :=
  let known := x[e.boundary.sectionId]?.getD (e.startMs, e.endMs)
  x.insert e.boundary.sectionId (min known.1 e.startMs, max known.2 e.endMs)

/-- The extents of all sections of some effects. -/
def extents (effects : List (Effect α)) : Extents := effects.foldl Extents.widened ∅

/-- Every effect marked as opening or closing its section, by extents gathered beforehand. -/
def tagByExtents (sections : List Span) (effects : List (Effect α)) : List (Effect α) :=
  let gathered := extents effects
  effects.map fun e =>
    match gathered[e.boundary.sectionId]? with
    | none => e
    | some x => e.tagged x.1 x.2 (sections.find? (·.id == e.boundary.sectionId))

/-- **The extent of a section**: from its earliest start to its latest end, and none where the section
has no effects. -/
def IsExtent (effects : List (Effect α)) (id : String) : Option (Nat × Nat) → Prop
  | none => ∀ e ∈ effects, e.boundary.sectionId ≠ id
  | some x => IsLeast (timesOf (·.startMs) effects id) x.1 ∧
      IsGreatest (timesOf (·.endMs) effects id) x.2

theorem timesOf_eq_empty {time : Effect α → Nat} {id : String}
    (h : ∀ e ∈ effects, e.boundary.sectionId ≠ id) : timesOf time effects id = ∅ :=
  Set.eq_empty_iff_forall_notMem.mpr fun _ ⟨e, he, same, _⟩ => h e he same

/-- One more effect of a section widens its extent. -/
theorem IsExtent.widen {done : List (Effect α)} {e : Effect α} {known : Option (Nat × Nat)}
    (h : IsExtent done e.boundary.sectionId known) :
    IsExtent (done ++ [e]) e.boundary.sectionId
      (some (min (known.getD (e.startMs, e.endMs)).1 e.startMs,
        max (known.getD (e.startMs, e.endMs)).2 e.endMs)) := by
  rw [IsExtent, timesOf_append, timesOf_append, timesOf_singleton_self, timesOf_singleton_self]
  cases known with
  | none =>
    rw [timesOf_eq_empty h, timesOf_eq_empty h, Set.empty_union, Set.empty_union]
    simp only [Option.getD_none, min_self, max_self]
    exact ⟨isLeast_singleton, isGreatest_singleton⟩
  | some extent => exact ⟨h.1.union isLeast_singleton, h.2.union isGreatest_singleton⟩

/-- An effect of another section leaves it alone. -/
theorem IsExtent.keep {done : List (Effect α)} {e : Effect α} {id : String}
    {known : Option (Nat × Nat)} (other : e.boundary.sectionId ≠ id) (h : IsExtent done id known) :
    IsExtent (done ++ [e]) id known := by
  cases known with
  | none => exact List.forall_mem_append.mpr ⟨h, List.forall_mem_singleton.mpr other⟩
  | some extent =>
    rw [IsExtent, timesOf_append, timesOf_append, timesOf_singleton_of_ne other,
      timesOf_singleton_of_ne other, Set.union_empty, Set.union_empty]
    exact h

/-- **Extents are those of some effects.** -/
def Gathers (x : Extents) (effects : List (Effect α)) : Prop :=
  ∀ id, IsExtent effects id x[id]?

theorem gathers_empty : Gathers ∅ ([] : List (Effect α)) := by
  intro id
  rw [Std.HashMap.getElem?_empty]
  exact List.forall_mem_nil _

theorem Gathers.widened {x : Extents} {done : List (Effect α)} (h : Gathers x done)
    (e : Effect α) : Gathers (x.widened e) (done ++ [e]) := by
  intro id
  rw [Extents.widened, Std.HashMap.getElem?_insert]
  split
  case isTrue same =>
    cases beq_iff_eq.mp same
    exact (h e.boundary.sectionId).widen
  case isFalse other => exact (h id).keep fun same => other (beq_iff_eq.mpr same)

theorem gathers_extents (effects : List (Effect α)) : Gathers (extents effects) effects := by
  have run (rest : List (Effect α)) : ∀ (x : Extents) (done : List (Effect α)), Gathers x done →
      Gathers (rest.foldl Extents.widened x) (done ++ rest) := by
    induction rest with
    | nil =>
      intro x done h
      rwa [List.append_nil]
    | cons e rest ih =>
      intro x done h
      have later := ih (x.widened e) (done ++ [e]) (h.widened e)
      rwa [List.append_assoc] at later
  exact run effects ∅ [] gathers_empty

/-- **Tagging with gathered extents is tagging.** -/
theorem tagByExtents_eq (sections : List Span) (effects : List (Effect α)) :
    tagByExtents sections effects = tag sections effects := by
  refine List.map_congr_left fun e he => ?_
  have extent := gathers_extents effects e.boundary.sectionId
  cases found : (extents effects)[e.boundary.sectionId]? with
  | none =>
    rw [found] at extent
    exact absurd rfl (extent e he)
  | some x =>
    rw [found] at extent
    dsimp only
    rw [extent.1.unique (isLeast_sectionStart he), extent.2.unique (isGreatest_sectionEnd he)]

end Timeline

/-! ## Marks -/

/-- **What tagging makes of an effect**: it is marked as opening its section if no effect of the
section starts earlier, and as closing it if none ends later; with a mark comes the transition
of the first section of that id, or none; and nothing else is touched. -/
structure Effect.Marked (sections : List Span) (effects : List (Effect α)) (e e' : Effect α) :
    Prop where
  opens : e'.boundary.isSectionStart = true ↔
    IsLeast (Timeline.timesOf (·.startMs) effects e.boundary.sectionId) e.startMs
  closes : e'.boundary.isSectionEnd = true ↔
    IsGreatest (Timeline.timesOf (·.endMs) effects e.boundary.sectionId) e.endMs
  entry : e'.boundary.entry =
    if e'.boundary.isSectionStart then
      (sections.find? (·.id == e.boundary.sectionId)).bind (·.transitionIn)
    else e.boundary.entry
  exit : e'.boundary.exit =
    if e'.boundary.isSectionEnd then
      (sections.find? (·.id == e.boundary.sectionId)).bind (·.transitionOut)
    else e.boundary.exit
  rest : e' =
    { e with
      boundary :=
        { e.boundary with
          isSectionStart := e'.boundary.isSectionStart
          isSectionEnd := e'.boundary.isSectionEnd
          entry := e'.boundary.entry
          exit := e'.boundary.exit } }

section Marked

variable {sections : List Span} {effects : List (Effect α)} {e : Effect α}

/-- There is one thing only that tagging may make of an effect. -/
theorem Effect.Marked.unique {a b : Effect α} (ha : e.Marked sections effects a)
    (hb : e.Marked sections effects b) : a = b := by
  have starts : a.boundary.isSectionStart = b.boundary.isSectionStart :=
    Bool.eq_iff_iff.mpr (ha.opens.trans hb.opens.symm)
  have ends : a.boundary.isSectionEnd = b.boundary.isSectionEnd :=
    Bool.eq_iff_iff.mpr (ha.closes.trans hb.closes.symm)
  rw [ha.rest, hb.rest, ha.entry, hb.entry, ha.exit, hb.exit, starts, ends]

theorem Timeline.marked_tagged (he : e ∈ effects) :
    e.Marked sections effects
      (e.tagged (sectionStart effects e.boundary.sectionId)
        (sectionEnd effects e.boundary.sectionId)
        (sections.find? (·.id == e.boundary.sectionId))) where
  opens := by
    have least := isLeast_sectionStart he
    show (e.startMs == sectionStart effects e.boundary.sectionId) = true ↔ _
    rw [beq_iff_eq]
    exact ⟨fun same => same ▸ least, fun first => first.unique least⟩
  closes := by
    have greatest := isGreatest_sectionEnd he
    show (e.endMs == sectionEnd effects e.boundary.sectionId) = true ↔ _
    rw [beq_iff_eq]
    exact ⟨fun same => same ▸ greatest, fun last => last.unique greatest⟩
  entry := rfl
  exit := rfl
  rest := rfl

theorem Timeline.forall₂_marked_tag (sections : List Span) (effects : List (Effect α)) :
    List.Forall₂ (Effect.Marked sections effects) effects (tag sections effects) :=
  List.forall₂_map_right_iff.mpr (List.forall₂_same.mpr fun _ he => marked_tagged he)

/-- Every section is opened by one of its effects and closed by one. -/
theorem Timeline.exists_opening_and_closing (sections : List Span) (he : e ∈ effects) :
    (∃ d ∈ tag sections effects, d.boundary.sectionId = e.boundary.sectionId ∧
      d.boundary.isSectionStart = true) ∧
    ∃ d ∈ tag sections effects, d.boundary.sectionId = e.boundary.sectionId ∧
      d.boundary.isSectionEnd = true := by
  obtain ⟨first, first_mem, first_id, first_start⟩ := (isLeast_sectionStart he).1
  obtain ⟨last, last_mem, last_id, last_end⟩ := (isGreatest_sectionEnd he).1
  constructor
  · refine ⟨_, List.mem_map_of_mem first_mem, first_id, ?_⟩
    rw [← first_id] at first_start
    exact beq_iff_eq.mpr first_start
  · refine ⟨_, List.mem_map_of_mem last_mem, last_id, ?_⟩
    rw [← last_id] at last_end
    exact beq_iff_eq.mpr last_end

/-! ## Tagging twice -/

/-- What a tag leaves alone is the same in a section after tagging. -/
theorem Timeline.map_ofSection_tag {time : Effect α → Nat}
    (kept : ∀ e startMs endMs sec, time (Effect.tagged e startMs endMs sec) = time e)
    (sections : List Span) (effects : List (Effect α)) (id : String) :
    (ofSection (tag sections effects) id).map time = (ofSection effects id).map time := by
  rw [ofSection, tag, List.filter_map, List.map_map]
  exact List.map_congr_left fun e _ => kept e _ _ _

theorem Effect.tagged_tagged (e : Effect α) (startMs endMs : Nat) (sec : Option Span) :
    (e.tagged startMs endMs sec).tagged startMs endMs sec = e.tagged startMs endMs sec := by
  simp only [Effect.tagged]
  congr 2 <;> split <;> rfl

/-- **A second tagging changes nothing.** -/
theorem Timeline.tag_tag (sections : List Span) (effects : List (Effect α)) :
    tag sections (tag sections effects) = tag sections effects := by
  have start : sectionStart (tag sections effects) = sectionStart effects := by
    funext id
    rw [sectionStart, map_ofSection_tag (fun _ _ _ _ => rfl), sectionStart]
  have finish : sectionEnd (tag sections effects) = sectionEnd effects := by
    funext id
    rw [sectionEnd, map_ofSection_tag (fun _ _ _ _ => rfl), sectionEnd]
  conv_lhs => rw [tag, start, finish, tag, List.map_map]
  exact List.map_congr_left fun e _ => e.tagged_tagged _ _ _

/-! ## All effects -/

/-- **Tagging marks where each section begins and ends, and does nothing else.** What it makes of a
list of effects is the one list in which each effect is marked as it should be; every section has
an effect that opens it and one that closes it; tagging again changes nothing; and extents
gathered beforehand give the same. -/
theorem Timeline.tag_marks (sections : List Span) (effects : List (Effect α)) :
    (∀ marked, marked = tag sections effects ↔
      List.Forall₂ (Effect.Marked sections effects) effects marked) ∧
    (∀ e ∈ effects,
      (∃ d ∈ tag sections effects, d.boundary.sectionId = e.boundary.sectionId ∧
        d.boundary.isSectionStart = true) ∧
      ∃ d ∈ tag sections effects, d.boundary.sectionId = e.boundary.sectionId ∧
        d.boundary.isSectionEnd = true) ∧
    tag sections (tag sections effects) = tag sections effects ∧
    tagByExtents sections effects = tag sections effects := by
  have tags := forall₂_marked_tag sections effects
  refine ⟨fun marked => ⟨?_, fun marks => ?_⟩, fun e he => exists_opening_and_closing sections he,
    tag_tag sections effects, tagByExtents_eq sections effects⟩
  · rintro rfl
    exact tags
  · exact List.right_unique_forall₂' (fun _ _ _ ha hb => ha.unique hb) marks tags

end Marked

end MovingLight
