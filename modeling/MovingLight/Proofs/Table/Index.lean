import Mathlib.Data.List.Nodup
import MovingLight.Table

/-!
# Indexed texts — where a text stands, without a search

A table numbers its texts in the order of their first use, and `EffectTable.intern` finds
the number of a text by going through all of them. A writer of long shows keeps an index
beside the texts instead. The two are then two views of one thing, and every text that
is added has to be added to both: `TextIndex.InStep` says that they agree, and adding a
text keeps them so (`TextIndex.InStep.intern`).

What a writer with an index makes of a show is therefore the table of the show
(`Show.tableByIndex_eq`), through both of its loops and whatever heads are left out.
-/

namespace MovingLight

/-- Texts, and an index of the place of each. -/
structure TextIndex where
  texts : List String
  places : Std.HashMap String Nat

namespace TextIndex

/-- No texts yet. -/
def empty : TextIndex := ⟨[], ∅⟩

/-- The index of a text, which is added behind the others if it is new. -/
def intern (x : TextIndex) (text : String) : Nat × TextIndex :=
  match x.places[text]? with
  | some i => (i, x)
  | none =>
    let texts := x.texts ++ [text]
    (texts.length - 1, ⟨texts, x.places.insert text (texts.length - 1)⟩)

/-- **The index is in step with the texts**: it has every text at its place, and no other. -/
def InStep (x : TextIndex) : Prop := ∀ text, x.places[text]? = x.texts.findIdx? (· == text)

theorem inStep_empty : empty.InStep := fun text => by simp [empty]

/-- The index answers as a search of the texts does. -/
structure Interns (x : TextIndex) (text : String) : Prop where
  number : (x.intern text).1 = (EffectTable.intern x.texts text).1
  texts : (x.intern text).2.texts = (EffectTable.intern x.texts text).2
  inStep : (x.intern text).2.InStep

/-- **Adding a text keeps the index in step.** A new text goes behind all others, so only its own
place changes, and that is the length of the texts before it. -/
theorem InStep.intern {x : TextIndex} (h : x.InStep) (text : String) : x.Interns text := by
  have found := h text
  cases place : x.places[text]? with
  | some i =>
    rw [place] at found
    have indexed : x.intern text = (i, x) := by rw [TextIndex.intern, place]
    have searched : EffectTable.intern x.texts text = (i, x.texts) := by
      rw [EffectTable.intern, ← found]
    constructor
    · rw [indexed, searched]
    · rw [indexed, searched]
    · rw [indexed]
      exact h
  | none =>
    rw [place] at found
    have searched : EffectTable.intern x.texts text = (x.texts.length, x.texts ++ [text]) := by
      rw [EffectTable.intern, ← found]
    have indexed : x.intern text =
        (x.texts.length, ⟨x.texts ++ [text], x.places.insert text x.texts.length⟩) := by
      simp [TextIndex.intern, place]
    constructor
    · rw [indexed, searched]
    · rw [indexed, searched]
    · rw [indexed]
      intro other
      show (x.places.insert text x.texts.length)[other]? = (x.texts ++ [text]).findIdx? (· == other)
      rw [Std.HashMap.getElem?_insert, h other, List.findIdx?_append]
      by_cases same : text = other
      · subst same
        simp [← found]
      · simp [same]

end TextIndex

namespace EffectTable

variable {α : Type} [Scalar α]

/-- The effects of one head placed one after another, with an index. -/
def placeAllByIndex (f : Fixture α) :
    List Nat → TextIndex → List (Effect α) → List Placement × TextIndex
  | _, x, [] => ([], x)
  | ends, x, e :: rest =>
    let (ref, x) := x.intern (e.settings f).encode
    let (layer, ends) := takeLayer e.startMs e.endMs ends
    let later := placeAllByIndex f ends x rest
    (⟨f.displayName, layer, e.startMs, e.endMs, e.label, ref⟩ :: later.1, later.2)

/-- The placements so far and the texts so far, with the timeline of one more head. -/
def addTimelineByIndex (rig : Rig α) (t : List Placement × TextIndex) (h : HeadTimeline α) :
    List Placement × TextIndex :=
  match rig.get? h.fixtureId with
  | none => t
  | some f =>
    let added := placeAllByIndex f [] t.2 h.effects
    (t.1 ++ added.1, added.2)

/-- What is placed with an index is what is placed with a search. -/
theorem placeAllByIndex_eq (f : Fixture α) (ends : List Nat) {x : TextIndex} (h : x.InStep)
    (effects : List (Effect α)) :
    (placeAllByIndex f ends x effects).1 = (placeAll f ends x.texts effects).1 ∧
      (placeAllByIndex f ends x effects).2.texts = (placeAll f ends x.texts effects).2 ∧
      (placeAllByIndex f ends x effects).2.InStep := by
  induction effects generalizing ends x with
  | nil => exact ⟨rfl, rfl, h⟩
  | cons e rest ih =>
    obtain ⟨number, texts, inStep⟩ := h.intern (e.settings f).encode
    obtain ⟨placements, rest_texts, rest_inStep⟩ := ih (takeLayer e.startMs e.endMs ends).2 inStep
    rw [texts] at placements rest_texts
    refine ⟨?_, rest_texts, rest_inStep⟩
    rw [placeAllByIndex, placeAll]
    dsimp only
    rw [number, placements]

/-- A table with an index beside its texts. -/
structure Indexed (t : EffectTable) (u : List Placement × TextIndex) : Prop where
  placements : u.1 = t.placements
  texts : u.2.texts = t.settings
  inStep : u.2.InStep

theorem Indexed.addTimeline {t : EffectTable} {u : List Placement × TextIndex} (h : Indexed t u)
    (rig : Rig α) (timeline : HeadTimeline α) :
    Indexed (t.addTimeline rig timeline) (addTimelineByIndex rig u timeline) := by
  unfold EffectTable.addTimeline addTimelineByIndex
  cases rig.get? timeline.fixtureId with
  | none => exact h
  | some f =>
    obtain ⟨placements, texts, inStep⟩ := placeAllByIndex_eq f [] h.inStep timeline.effects
    rw [h.texts] at placements texts
    refine ⟨?_, texts, inStep⟩
    dsimp only
    rw [h.placements, placements]

/-- One head after another. -/
theorem Indexed.foldl {t : EffectTable} {u : List Placement × TextIndex} (h : Indexed t u)
    (rig : Rig α) (timelines : List (HeadTimeline α)) :
    Indexed (timelines.foldl (EffectTable.addTimeline rig) t)
      (timelines.foldl (addTimelineByIndex rig) u) := by
  induction timelines generalizing t u with
  | nil => exact h
  | cons timeline rest ih => exact ih (h.addTimeline rig timeline)

end EffectTable

variable {α : Type} [Scalar α]

/-- The table of a show, made with an index. -/
def Show.tableByIndex (s : Show α) (rig : Rig α) : EffectTable :=
  let made := s.timelines.foldl (EffectTable.addTimelineByIndex rig) ([], .empty)
  ⟨made.2.texts, made.1⟩

/-- **An index makes the same table.** -/
theorem Show.tableByIndex_eq (s : Show α) (rig : Rig α) : s.tableByIndex rig = s.table rig := by
  have nothing : EffectTable.Indexed ⟨[], []⟩ ([], .empty) := ⟨rfl, rfl, TextIndex.inStep_empty⟩
  obtain ⟨placements, texts, -⟩ := nothing.foldl rig s.timelines
  rw [Show.tableByIndex, Show.table]
  rw [placements, texts]

end MovingLight
