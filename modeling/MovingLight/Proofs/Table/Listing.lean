import Mathlib.Data.List.Forall2
import MovingLight.Proofs.Table.Index

/-!
# What a table lists — every effect once, every text once

A table has one placement for each effect of each head of the rig, in the order of heads
and effects (`Show.listed`), and one text for each settings that differ. A placement
refers to its text by a number, and the text of that number has to be the one its own
effect is written as, also when other effects have added theirs behind it.

Every step of making a table adds to what is there. It appends texts and moves none, so a
number once given stays right (`EffectTable.Lists.mono`); and a text that is new is given
the next number, so that numbers come in the order of first use (`EffectTable.FirstUse`).
`EffectTable.Adds` says all this of one step, a single effect takes one (`adds_effect`),
and steps follow one another (`Adds.append`): first the effects of a head, then the heads
of a show.
-/

namespace MovingLight

variable {α : Type}

/-- The effects of a timeline, each with the head it is for; none if the rig does not have it. -/
def Rig.listed (rig : Rig α) (h : HeadTimeline α) : List (Fixture α × Effect α) :=
  match rig.get? h.fixtureId with
  | none => []
  | some f => h.effects.map fun e => (f, e)

/-- **The effects a table is to list**: those of the heads of a rig, head by head. -/
def Show.listed (s : Show α) (rig : Rig α) : List (Fixture α × Effect α) :=
  s.timelines.flatMap rig.listed

namespace EffectTable

/-! ## Numbers in order of first use -/

/-- **Numbers come in order of first use.** With so many given before, each is one of those or the
next one, and in the end so many are given. -/
inductive FirstUse : (before : Nat) → List Nat → (after : Nat) → Prop
  | nil {given : Nat} : FirstUse given [] given
  | again {given number after : Nat} {rest : List Nat} (known : number < given)
      (later : FirstUse given rest after) : FirstUse given (number :: rest) after
  | next {given after : Nat} {rest : List Nat} (later : FirstUse (given + 1) rest after) :
      FirstUse given (given :: rest) after

theorem FirstUse.append {a b c : Nat} {numbers more : List Nat} (h : FirstUse a numbers b)
    (h' : FirstUse b more c) : FirstUse a (numbers ++ more) c := by
  induction h with
  | nil => exact h'
  | again known _ ih => exact .again known (ih h')
  | next _ ih => exact .next (ih h')

/-- Every number is one that is given in the end. -/
theorem FirstUse.lt {given after : Nat} {numbers : List Nat} (h : FirstUse given numbers after) :
    given ≤ after ∧ ∀ n ∈ numbers, n < after := by
  induction h with
  | nil => exact ⟨Nat.le_refl _, List.forall_mem_nil _⟩
  | again known _ ih =>
    exact ⟨ih.1, List.forall_mem_cons.mpr ⟨Nat.lt_of_lt_of_le known ih.1, ih.2⟩⟩
  | next _ ih =>
    exact ⟨Nat.le_of_lt ih.1, List.forall_mem_cons.mpr ⟨ih.1, ih.2⟩⟩

/-! ## One text -/

/-- **Finding the number of a text**: either a text that is there has it, or the text is new and
goes behind the others. -/
theorem intern_cases (texts : List String) (text : String) :
    (∃ i, texts[i]? = some text ∧ intern texts text = (i, texts)) ∨
      (text ∉ texts ∧ intern texts text = (texts.length, texts ++ [text])) := by
  unfold intern
  cases found : texts.findIdx? (· == text) with
  | some i =>
    left
    obtain ⟨inside, same, -⟩ := List.findIdx?_eq_some_iff_getElem.mp found
    exact ⟨i, by rw [List.getElem?_eq_getElem inside, eq_of_beq same], rfl⟩
  | none =>
    right
    refine ⟨fun listed => ?_, rfl⟩
    have differs := List.findIdx?_eq_none_iff.mp found text listed
    exact Bool.noConfusion (differs.symm.trans (beq_self_eq_true text))

/-! ## One step -/

variable [Scalar α]

/-- **A placement lists an effect**: it has the name of the head, the span and the label of the
effect, and refers to the text of its settings. -/
structure Lists (texts : List String) (u : Fixture α × Effect α) (p : Placement) : Prop where
  element : p.element = u.1.displayName
  startMs : p.startMs = u.2.startMs
  endMs : p.endMs = u.2.endMs
  label : p.label = u.2.label
  text : texts[p.settingsRef]? = some (u.2.settings u.1).encode

/-- Texts that are added behind change nothing. -/
theorem Lists.mono {texts texts' : List String} (kept : texts <+: texts')
    {u : Fixture α × Effect α} {p : Placement} (h : Lists texts u p) : Lists texts' u p := by
  obtain ⟨more, rfl⟩ := kept
  have inside : p.settingsRef < texts.length := (List.getElem?_eq_some_iff.mp h.text).1
  exact { h with text := by rw [List.getElem?_append_left inside, h.text] }

/-- Placements refer to one text exactly where their effects are written alike. -/
theorem Lists.settingsRef_eq_iff {texts : List String}
    {u v : Fixture α × Effect α} {p q : Placement} (nodup : texts.Nodup)
    (hp : Lists texts u p) (hq : Lists texts v q) :
    p.settingsRef = q.settingsRef ↔ (u.2.settings u.1).encode = (v.2.settings v.1).encode := by
  have inside : p.settingsRef < texts.length := (List.getElem?_eq_some_iff.mp hp.text).1
  rw [← List.getElem?_inj inside nodup, hp.text, hq.text, Option.some.injEq]

/-- **What making a part of a table adds** to the texts there are: placements that list some
effects, and the texts of those effects that are new. -/
structure Adds (texts : List String) (effects : List (Fixture α × Effect α))
    (placements : List Placement) (texts' : List String) : Prop where
  kept : texts <+: texts'
  nodup : texts.Nodup → texts'.Nodup
  lists : List.Forall₂ (Lists texts') effects placements
  order : FirstUse texts.length (placements.map (·.settingsRef)) texts'.length

theorem adds_nil (texts : List String) : Adds (α := α) texts [] [] texts :=
  ⟨List.prefix_refl _, id, .nil, .nil⟩

/-- One part after another. -/
theorem Adds.append {texts texts' texts'' : List String} {effects more : List (Fixture α × Effect α)}
    {placements later : List Placement} (h : Adds texts effects placements texts')
    (h' : Adds texts' more later texts'') :
    Adds texts (effects ++ more) (placements ++ later) texts'' := by
  refine ⟨h.kept.trans h'.kept, h'.nodup ∘ h.nodup, ?_, ?_⟩
  · exact List.rel_append (h.lists.imp fun _ _ => Lists.mono h'.kept) h'.lists
  · rw [List.map_append]
    exact h.order.append h'.order

/-- One effect, on whatever layer. -/
theorem adds_effect (f : Fixture α) (e : Effect α) (layer : Nat) (texts : List String) :
    let interned := intern texts (e.settings f).encode
    Adds texts [(f, e)]
      [⟨f.displayName, layer, e.startMs, e.endMs, e.label, interned.1⟩] interned.2 := by
  intro interned
  rcases intern_cases texts (e.settings f).encode with ⟨i, there, same⟩ | ⟨fresh, added⟩
  · have is_interned : interned = (i, texts) := same
    rw [is_interned]
    have inside : i < texts.length := (List.getElem?_eq_some_iff.mp there).1
    exact ⟨List.prefix_refl _, id, .cons ⟨rfl, rfl, rfl, rfl, there⟩ .nil, .again inside .nil⟩
  · have is_interned : interned = (texts.length, texts ++ [(e.settings f).encode]) := added
    rw [is_interned]
    refine ⟨List.prefix_append _ _, fun nodup => ?_, .cons ⟨rfl, rfl, rfl, rfl, ?_⟩ .nil, ?_⟩
    · exact List.nodup_append.mpr ⟨nodup, List.nodup_singleton _, by
        rintro text listed _ (_ | ⟨_, ⟨⟩⟩) rfl
        exact fresh listed⟩
    · exact List.getElem?_concat_length
    · rw [List.length_append]
      exact .next .nil

/-! ## A whole table -/

/-- The effects of one head. -/
theorem adds_placeAll (f : Fixture α) (ends : List Nat) (texts : List String)
    (effects : List (Effect α)) :
    Adds texts (effects.map fun e => (f, e)) (placeAll f ends texts effects).1
      (placeAll f ends texts effects).2 := by
  induction effects generalizing ends texts with
  | nil => exact adds_nil texts
  | cons e rest ih =>
    have first := adds_effect f e (takeLayer e.startMs e.endMs ends).1 texts
    exact first.append (ih (takeLayer e.startMs e.endMs ends).2 _)

/-- The placements a timeline adds to a table; none if the rig does not have its head. -/
def placed (rig : Rig α) (texts : List String) (h : HeadTimeline α) : List Placement :=
  match rig.get? h.fixtureId with
  | none => []
  | some f => (placeAll f [] texts h.effects).1

/-- One more timeline. -/
theorem adds_addTimeline (rig : Rig α) (t : EffectTable) (h : HeadTimeline α) :
    (t.addTimeline rig h).placements = t.placements ++ placed rig t.settings h ∧
      Adds t.settings (rig.listed h) (placed rig t.settings h) (t.addTimeline rig h).settings := by
  unfold EffectTable.addTimeline Rig.listed placed
  cases rig.get? h.fixtureId with
  | none => exact ⟨(List.append_nil _).symm, adds_nil t.settings⟩
  | some f => exact ⟨rfl, adds_placeAll f [] t.settings h.effects⟩

/-- One timeline after another. -/
theorem exists_adds_foldl (rig : Rig α) (timelines : List (HeadTimeline α)) (t : EffectTable) :
    ∃ added, (timelines.foldl (EffectTable.addTimeline rig) t).placements = t.placements ++ added ∧
      Adds t.settings (timelines.flatMap rig.listed) added
        (timelines.foldl (EffectTable.addTimeline rig) t).settings := by
  induction timelines generalizing t with
  | nil => exact ⟨[], (List.append_nil _).symm, adds_nil t.settings⟩
  | cons h rest ih =>
    obtain ⟨own, adds⟩ := adds_addTimeline rig t h
    obtain ⟨added, grown, later⟩ := ih (t.addTimeline rig h)
    refine ⟨placed rig t.settings h ++ added, ?_, adds.append later⟩
    rw [List.foldl_cons, grown, own, List.append_assoc]

/-- A table that lists some effects and holds nothing else. -/
def Complete (effects : List (Fixture α × Effect α)) (t : EffectTable) : Prop :=
  Adds [] effects t.placements t.settings

end EffectTable

variable [Scalar α]

theorem Show.complete_table (s : Show α) (rig : Rig α) :
    EffectTable.Complete (s.listed rig) (s.table rig) := by
  obtain ⟨added, grown, adds⟩ := EffectTable.exists_adds_foldl rig s.timelines ⟨[], []⟩
  have all : (s.table rig).placements = added := grown
  rw [EffectTable.Complete, all]
  exact adds

/-- **A table lists every effect of the heads of its rig once**, in order, with its own span, label
and settings. Its texts differ from each other, are numbered in the order in which placements first
refer to them, and are those that a writer with an index finds. -/
theorem Show.table_lists (s : Show α) (rig : Rig α) :
    let t := s.table rig
    List.Forall₂
      (fun u p => p.element = u.1.displayName ∧ p.startMs = u.2.startMs ∧ p.endMs = u.2.endMs ∧
        p.label = u.2.label ∧ t.settingsFor? p = some (u.2.settings u.1).encode)
      (s.listed rig) t.placements ∧
    t.settings.Nodup ∧
    (∀ p ∈ t.placements, p.settingsRef < t.settings.length) ∧
    EffectTable.FirstUse 0 (t.placements.map (·.settingsRef)) t.settings.length ∧
    s.tableByIndex rig = t := by
  intro t
  obtain ⟨-, nodup, lists, order⟩ := s.complete_table rig
  refine ⟨?_, nodup List.nodup_nil, fun p hp => ?_, order, s.tableByIndex_eq rig⟩
  · exact lists.imp fun u p h => ⟨h.element, h.startMs, h.endMs, h.label, h.text⟩
  · exact order.lt.2 _ (List.mem_map_of_mem hp)

end MovingLight
