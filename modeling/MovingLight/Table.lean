import MovingLight.Show
import MovingLight.Table.Setting

/-!
# Effect tables — a show as a sequence file holds it

A table lists every effect with the name of its head, the layer it lies on
and its span. Settings are stored once: a placement refers to its text by an
index, and texts are numbered in the order of their first use.

An effect lies on the first layer of its head that is free when it starts.
-/

namespace MovingLight

/-- One effect in a table. -/
structure Placement where
  element : String
  layer : Nat
  startMs : Nat
  endMs : Nat
  label : String
  /-- The index of the settings text. -/
  settingsRef : Nat
  deriving DecidableEq, Repr

/-- The settings texts and the effects that refer to them. -/
structure EffectTable where
  settings : List String
  placements : List Placement
  deriving DecidableEq, Repr

namespace EffectTable

/-- The settings text of a placement. -/
def settingsFor? (t : EffectTable) (p : Placement) : Option String := t.settings[p.settingsRef]?

/-- The index of a text, and the texts with it. -/
def intern (texts : List String) (text : String) : Nat × List String :=
  match texts.findIdx? (· == text) with
  | some i => (i, texts)
  | none => (texts.length, texts ++ [text])

/-- The first layer that is free at a time, and the ends of all layers once
it is taken until `endMs`. -/
def takeLayer (startMs endMs : Nat) : List Nat → Nat × List Nat
  | [] => (0, [endMs])
  | e :: rest =>
    if e ≤ startMs then (0, endMs :: rest)
    else
      let taken := takeLayer startMs endMs rest
      (taken.1 + 1, e :: taken.2)

variable {α : Type} [Scalar α]

/-- The effects of one head placed one after another, given the ends of its
layers so far and the texts so far. -/
def placeAll (f : Fixture α) :
    List Nat → List String → List (Effect α) → List Placement × List String
  | _, texts, [] => ([], texts)
  | ends, texts, e :: rest =>
    let (ref, texts) := intern texts (e.settings f).encode
    let (layer, ends) := takeLayer e.startMs e.endMs ends
    let later := placeAll f ends texts rest
    (⟨f.displayName, layer, e.startMs, e.endMs, e.label, ref⟩ :: later.1, later.2)

/-- The table with the timeline of one more head; one the rig does not have
is left out. -/
def addTimeline (rig : Rig α) (t : EffectTable) (h : HeadTimeline α) : EffectTable :=
  match rig.get? h.fixtureId with
  | none => t
  | some f =>
    let added := placeAll f [] t.settings h.effects
    ⟨added.2, t.placements ++ added.1⟩

end EffectTable

/-- The table of a show on a rig. -/
def Show.table {α : Type} [Scalar α] (s : Show α) (rig : Rig α) : EffectTable :=
  s.timelines.foldl (EffectTable.addTimeline rig) ⟨[], []⟩

end MovingLight
