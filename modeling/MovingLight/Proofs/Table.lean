import Mathlib.Data.List.Nodup
import Mathlib.Data.List.Pairwise
import MovingLight.Proofs.Show
import MovingLight.Table

/-!
# Effect tables — what lies on one layer

An effect goes onto the first layer of its head that is free when it starts. So no
layer of one head ever holds two effects at once, in whatever order the effects come
(`placeAll_layers`). The argument is about one layer at a time: taking a layer moves
its end on (`takeLayer_taken`), from no later than the start of what is put on it
(`takeLayer_le`), and leaves all others alone (`takeLayer_other`).

A table says of a placement which element it is for, and that is the name of its head
and not its id. Where a name belongs to one head, layers keep placements apart
throughout the table of a show (`Show.table_apart`). Where two heads share a name they
share their layers without knowing of each other: each counts its own from the first,
and as the effects of a head take turns it never gets any further (`placeAll_inTurn`). So
a table keeps its placements apart only on a rig whose heads have different names, if
every gap is filled (`Show.namesOne_of_apart`), and not on any rig
(`Show.not_table_apart`).
-/

namespace MovingLight

variable {α : Type}

/-- One of two placements is over before the other starts. -/
def Placement.Apart (a b : Placement) : Prop := a.endMs ≤ b.startMs ∨ b.endMs ≤ a.startMs

/-- **A name belongs to one head** of a rig at most. -/
def Rig.NamesOne (rig : Rig α) (name : String) : Prop :=
  ∀ f ∈ rig.fixtures, ∀ g ∈ rig.fixtures, f.displayName = name → g.displayName = name → f.id = g.id

instance (rig : Rig α) (name : String) : Decidable (rig.NamesOne name) :=
  inferInstanceAs (Decidable (∀ f ∈ rig.fixtures, ∀ g ∈ rig.fixtures, _ → _ → _))

/-- A head is found by its id, where ids differ. -/
theorem Rig.get?_of_mem {rig : Rig α} (ids : rig.ids.Nodup) {f : Fixture α}
    (hf : f ∈ rig.fixtures) : rig.get? f.id = some f := by
  have some_head : (rig.get? f.id).isSome :=
    List.find?_isSome.mpr ⟨f, hf, beq_self_eq_true f.id⟩
  obtain ⟨g, found⟩ := Option.isSome_iff_exists.mp some_head
  have hg : g ∈ rig.fixtures := List.mem_of_find?_eq_some found
  have is_head := List.find?_some found
  have same : g.id = f.id := eq_of_beq is_head
  rw [found, List.inj_on_of_nodup_map ids hg hf same]

namespace EffectTable

/-! ## Taking a layer -/

variable {startMs endMs : Nat}

/-- What lay on the layer taken is over. -/
theorem takeLayer_le {ends : List Nat} {time : Nat}
    (h : ends[(takeLayer startMs endMs ends).1]? = some time) : time ≤ startMs := by
  induction ends with
  | nil => cases h
  | cons e rest ih =>
    rw [takeLayer] at h
    split at h
    · rename_i free
      obtain rfl := Option.some.inj h
      exact free
    · exact ih h

theorem takeLayer_taken (ends : List Nat) :
    (takeLayer startMs endMs ends).2[(takeLayer startMs endMs ends).1]? = some endMs := by
  induction ends with
  | nil => rfl
  | cons e rest ih =>
    rw [takeLayer]
    split
    · rfl
    · exact ih

/-- No layer changes but the one taken. -/
theorem takeLayer_other {ends : List Nat} {layer time : Nat}
    (other : layer ≠ (takeLayer startMs endMs ends).1) (h : ends[layer]? = some time) :
    (takeLayer startMs endMs ends).2[layer]? = some time := by
  induction ends generalizing layer with
  | nil => cases h
  | cons e rest ih =>
    rw [takeLayer] at other ⊢
    split at other
    · rename_i free
      rw [if_pos free]
      cases layer with
      | zero => exact absurd rfl other
      | succ layer => exact h
    · rename_i taken
      rw [if_neg taken]
      cases layer with
      | zero => exact h
      | succ layer => exact ih (fun same => other (congrArg Nat.succ same)) h

/-! ## The effects of one head -/

variable [Scalar α]

theorem placeAll_element (f : Fixture α) (ends : List Nat) (texts : List String)
    (effects : List (Effect α)) :
    ∀ p ∈ (placeAll f ends texts effects).1, p.element = f.displayName := by
  induction effects generalizing ends texts with
  | nil => exact List.forall_mem_nil _
  | cons e rest ih => exact List.forall_mem_cons.mpr ⟨rfl, ih _ _⟩

/-- **No two effects of a head lie on one layer at one time.** An effect starts when its layer is
free, and the next one on that layer when the effect is over; `ends` says since when each layer is
free. The induction is on the effects that follow, for any layers they find. -/
theorem placeAll_layers (f : Fixture α) (ends : List Nat) (texts : List String)
    {effects : List (Effect α)} (forward : ∀ e ∈ effects, e.startMs ≤ e.endMs) :
    (∀ p ∈ (placeAll f ends texts effects).1, ∀ time, ends[p.layer]? = some time →
        time ≤ p.startMs) ∧
      (placeAll f ends texts effects).1.Pairwise fun a b =>
        a.layer = b.layer → a.endMs ≤ b.startMs := by
  induction effects generalizing ends texts with
  | nil => exact ⟨List.forall_mem_nil _, .nil⟩
  | cons e rest ih =>
    obtain ⟨he, hrest⟩ := List.forall_mem_cons.mp forward
    have taken : (takeLayer e.startMs e.endMs ends).2[(takeLayer e.startMs e.endMs ends).1]? =
        some e.endMs := takeLayer_taken ends
    obtain ⟨free, apart⟩ := ih (takeLayer e.startMs e.endMs ends).2
      (intern texts (e.settings f).encode).2 hrest
    refine ⟨List.forall_mem_cons.mpr ⟨fun time h => takeLayer_le h, fun p hp time h => ?_⟩,
      List.pairwise_cons.mpr ⟨fun p hp same => ?_, apart⟩⟩
    · by_cases here : p.layer = (takeLayer e.startMs e.endMs ends).1
      · -- on the layer of `e`, which is past its old end by then
        have after : e.endMs ≤ p.startMs := free p hp _ (here ▸ taken)
        have before : time ≤ e.startMs := takeLayer_le (here ▸ h)
        exact Nat.le_trans before (Nat.le_trans he after)
      · exact free p hp time (takeLayer_other here h)
    · have here : (takeLayer e.startMs e.endMs ends).1 = p.layer := same
      exact free p hp _ (here ▸ taken)

/-- A placement shows an effect of a head on its first layer. -/
structure Shows (f : Fixture α) (e : Effect α) (p : Placement) : Prop where
  element : p.element = f.displayName
  layer : p.layer = 0
  startMs : p.startMs = e.startMs
  endMs : p.endMs = e.endMs

/-- **Effects that take turns all lie on the first layer**: what is there is over whenever the next
one starts. -/
theorem placeAll_inTurn (f : Fixture α) (ends : List Nat) (texts : List String)
    {effects : List (Effect α)} (turn : Timeline.InTurn effects)
    (free : ∀ last ∈ ends.head?, ∀ e ∈ effects, last ≤ e.startMs) :
    ∀ e ∈ effects, ∃ p ∈ (placeAll f ends texts effects).1, Shows f e p := by
  induction effects generalizing ends texts with
  | nil => exact List.forall_mem_nil _
  | cons e rest ih =>
    obtain ⟨-, later, rest_turn⟩ := Timeline.inTurn_cons.mp turn
    have first : (takeLayer e.startMs e.endMs ends).1 = 0 ∧
        (takeLayer e.startMs e.endMs ends).2.head? = some e.endMs := by
      cases ends with
      | nil => exact ⟨rfl, rfl⟩
      | cons last others =>
        have first_free : last ≤ e.startMs := free last rfl e List.mem_cons_self
        rw [takeLayer, if_pos first_free]
        exact ⟨rfl, rfl⟩
    intro n hn
    rcases List.mem_cons.mp hn with rfl | hn
    · exact ⟨_, List.mem_cons_self, rfl, first.1, rfl, rfl⟩
    · have next_free : ∀ last ∈ (takeLayer e.startMs e.endMs ends).2.head?,
          ∀ n ∈ rest, last ≤ n.startMs := by
        intro last hlast n hn
        rw [first.2] at hlast
        obtain rfl := Option.some.inj hlast
        exact later n hn
      obtain ⟨p, hp, shows⟩ := ih _ _ rest_turn next_free n hn
      exact ⟨p, List.mem_cons_of_mem _ hp, shows⟩

/-! ## The table of a show -/

/-- Two placements keep apart on a layer that only one head writes to. -/
def KeepApart (rig : Rig α) (a b : Placement) : Prop :=
  a.element = b.element → a.layer = b.layer → rig.NamesOne a.element → a.Apart b

/-- **How far a table has come**: its placements keep apart, and none of them is for a head that is
still to come. -/
structure Settled (rig : Rig α) (coming : List (HeadTimeline α)) (t : EffectTable) : Prop where
  apart : t.placements.Pairwise (KeepApart rig)
  past : ∀ a ∈ t.placements, ∃ g ∈ rig.fixtures, g.displayName = a.element ∧
    ∀ h ∈ coming, g.id ≠ h.fixtureId

/-- **One more head.** Its placements keep apart among themselves because layers do, and from those
before them because a shared name belongs to two heads. -/
theorem Settled.addTimeline {rig : Rig α} {h : HeadTimeline α} {coming : List (HeadTimeline α)}
    {t : EffectTable} (settled : Settled rig (h :: coming) t)
    (fresh : ∀ k ∈ coming, h.fixtureId ≠ k.fixtureId)
    (forward : ∀ e ∈ h.effects, e.startMs ≤ e.endMs) :
    Settled rig coming (t.addTimeline rig h) := by
  have past : ∀ a ∈ t.placements, ∃ g ∈ rig.fixtures, g.displayName = a.element ∧
      ∀ k ∈ coming, g.id ≠ k.fixtureId := fun a ha => by
    obtain ⟨g, hg, named, others⟩ := settled.past a ha
    exact ⟨g, hg, named, (List.forall_mem_cons.mp others).2⟩
  unfold EffectTable.addTimeline
  split
  · exact ⟨settled.apart, past⟩
  · rename_i f found
    have hf : f ∈ rig.fixtures := List.mem_of_find?_eq_some found
    have is_head := List.find?_some found
    have id_eq : f.id = h.fixtureId := eq_of_beq is_head
    have named := placeAll_element f [] t.settings h.effects
    refine ⟨List.pairwise_append.mpr ⟨settled.apart, ?_, fun a ha b hb => ?_⟩, fun a ha => ?_⟩
    · refine (placeAll_layers f [] t.settings forward).2.imp fun apart _ layer _ => ?_
      exact Or.inl (apart layer)
    · intro element _ one
      obtain ⟨g, hg, name, others⟩ := settled.past a ha
      have ids := one g hg f hf name ((named b hb).symm.trans element.symm)
      exact absurd (ids.trans id_eq) (others h List.mem_cons_self)
    · rcases List.mem_append.mp ha with ha | ha
      · exact past a ha
      · refine ⟨f, hf, (named a ha).symm, fun k hk => ?_⟩
        rw [id_eq]
        exact fresh k hk

/-- One head after another. -/
theorem Settled.foldl {rig : Rig α} {timelines : List (HeadTimeline α)} {t : EffectTable}
    (settled : Settled rig timelines t) (ids : (timelines.map (·.fixtureId)).Nodup)
    (forward : ∀ h ∈ timelines, ∀ e ∈ h.effects, e.startMs ≤ e.endMs) :
    Settled rig [] (timelines.foldl (EffectTable.addTimeline rig) t) := by
  induction timelines generalizing t with
  | nil => exact settled
  | cons h rest ih =>
    obtain ⟨here, later⟩ := List.forall_mem_cons.mp forward
    obtain ⟨fresh, ids⟩ := List.nodup_cons.mp ids
    refine ih (settled.addTimeline (fun k hk same => fresh ?_) here) ids later
    exact List.mem_map.mpr ⟨k, hk, same.symm⟩

/-- A table only grows, and what is added shows every effect of the heads to come. -/
theorem exists_added (rig : Rig α) {timelines : List (HeadTimeline α)} (t : EffectTable)
    (turns : ∀ h ∈ timelines, Timeline.InTurn h.effects) :
    ∃ added, (timelines.foldl (EffectTable.addTimeline rig) t).placements = t.placements ++ added ∧
      ∀ h ∈ timelines, ∀ f, rig.get? h.fixtureId = some f →
        ∀ e ∈ h.effects, ∃ p ∈ added, Shows f e p := by
  induction timelines generalizing t with
  | nil => exact ⟨[], (List.append_nil _).symm, List.forall_mem_nil _⟩
  | cons h rest ih =>
    obtain ⟨turn, turns⟩ := List.forall_mem_cons.mp turns
    obtain ⟨added, grown, shown⟩ := ih (t.addTimeline rig h) turns
    cases found : rig.get? h.fixtureId with
    | none =>
      have kept : t.addTimeline rig h = t := by rw [EffectTable.addTimeline, found]
      rw [kept] at grown
      refine ⟨added, ?_, List.forall_mem_cons.mpr ⟨fun f hf => ?_, shown⟩⟩
      · rwa [List.foldl_cons, kept]
      · rw [found] at hf
        cases hf
    | some f =>
      have one_more : (t.addTimeline rig h).placements =
          t.placements ++ (placeAll f [] t.settings h.effects).1 := by
        rw [EffectTable.addTimeline, found]
      refine ⟨(placeAll f [] t.settings h.effects).1 ++ added, ?_,
        List.forall_mem_cons.mpr ⟨fun g hg e he => ?_, fun k hk g hg e he => ?_⟩⟩
      · rw [List.foldl_cons, grown, one_more, List.append_assoc]
      · rw [found] at hg
        obtain rfl := Option.some.inj hg
        obtain ⟨p, hp, shows⟩ := placeAll_inTurn f [] t.settings turn (by simp) e he
        exact ⟨p, List.mem_append_left _ hp, shows⟩
      · obtain ⟨p, hp, shows⟩ := shown k hk g hg e he
        exact ⟨p, List.mem_append_right _ hp, shows⟩

omit [Scalar α] in
/-- What is active at one time is not apart. -/
theorem Shows.not_apart {f g : Fixture α} {a b : Effect α} {p q : Placement} (hp : Shows f a p)
    (hq : Shows g b q) {time : Nat} (ha : a.ActiveAt time) (hb : b.ActiveAt time) :
    ¬p.Apart q := by
  unfold Effect.ActiveAt at ha hb
  rw [Placement.Apart, hp.startMs, hp.endMs, hq.startMs, hq.endMs]
  omega

/-- Two timelines are those of heads with different names, if they are those of heads. -/
def NamedApart (rig : Rig α) (h k : HeadTimeline α) : Prop :=
  ∀ f g, rig.get? h.fixtureId = some f → rig.get? k.fixtureId = some g →
    f.displayName ≠ g.displayName

instance (rig : Rig α) : Std.Symm (NamedApart rig) where
  symm _ _ h f g hf hg := (h g f hg hf).symm

/-- **Heads that are active at one time need names of their own** for a table to keep them apart. -/
theorem names_pairwise {rig : Rig α} {timelines : List (HeadTimeline α)} {t : EffectTable}
    {time : Nat} (turns : ∀ h ∈ timelines, Timeline.InTurn h.effects)
    (active : ∀ h ∈ timelines, ∃ e ∈ h.effects, e.ActiveAt time)
    (apart : (timelines.foldl (EffectTable.addTimeline rig) t).placements.Pairwise fun a b =>
      a.element = b.element → a.layer = b.layer → a.Apart b) :
    timelines.Pairwise (NamedApart rig) := by
  induction timelines generalizing t with
  | nil => exact .nil
  | cons h rest ih =>
    obtain ⟨turn, turns⟩ := List.forall_mem_cons.mp turns
    obtain ⟨⟨a, ha, active_a⟩, active⟩ := List.forall_mem_cons.mp active
    refine List.pairwise_cons.mpr ⟨fun k hk f g hf hg same => ?_, ih turns active apart⟩
    obtain ⟨own, own_grown, own_shown⟩ := exists_added rig t
      (List.forall_mem_singleton.mpr turn)
    obtain ⟨added, grown, shown⟩ := exists_added rig (t.addTimeline rig h) turns
    obtain ⟨b, hb, active_b⟩ := active k hk
    obtain ⟨p, hp, shows_p⟩ := own_shown h List.mem_cons_self f hf a ha
    obtain ⟨q, hq, shows_q⟩ := shown k hk g hg b hb
    have earlier : p ∈ (t.addTimeline rig h).placements := by
      have one : (t.addTimeline rig h).placements = t.placements ++ own := own_grown
      rw [one]
      exact List.mem_append_right _ hp
    rw [List.foldl_cons, grown] at apart
    have across := (List.pairwise_append.mp apart).2.2 p earlier q hq
    have elements : p.element = q.element := by rw [shows_p.element, same, shows_q.element]
    have layers : p.layer = q.layer := by rw [shows_p.layer, shows_q.layer]
    exact shows_p.not_apart shows_q active_a active_b (across elements layers)

end EffectTable

namespace Show

variable [Scalar α] {p : Plan α} {rig : Rig α} {settings : Settings α} {s : Show α}

/-- The timelines of a rendered show are those of the heads of the rig, in order. -/
theorem timelines_eq_map (h : p.render rig settings = .ok s) :
    s.timelines.map (·.fixtureId) = rig.ids ∧
      ∀ t ∈ s.timelines, Timeline.InTurn t.effects := by
  obtain ⟨-, -, rfl⟩ := Plan.render_eq_ok.mp h
  constructor
  · have heads := Plan.map_fst_divided (p.sequenced rig settings) rig.fixtures
    rw [Rig.ids, ← congrArg (List.map (·.id)) heads, List.map_map, List.map_map]
    rfl
  · intro t ht
    obtain ⟨⟨f, own⟩, hd, rfl⟩ := List.mem_map.mp ht
    have own_effects := Plan.own_of_mem_divided hd
    exact (HeadTimeline.complete_ofOwn settings p.songDurationMs own_effects).inTurn

/-- **Layers keep placements apart**: in the table of a show, no two placements of one element and
one layer are active together where the name of the element belongs to one head. -/
theorem table_apart (h : p.render rig settings = .ok s) (ids : rig.ids.Nodup) :
    (s.table rig).placements.Pairwise fun a b =>
      a.element = b.element → a.layer = b.layer → rig.NamesOne a.element → a.Apart b := by
  obtain ⟨heads, turns⟩ := timelines_eq_map h
  have nothing : EffectTable.Settled rig s.timelines ⟨[], []⟩ :=
    ⟨.nil, List.forall_mem_nil _⟩
  refine (nothing.foldl (by rwa [heads]) fun t ht e he => ?_).apart
  exact Nat.le_of_lt ((turns t ht).lasts e he)

/-- Two heads of one name and a third with a name of its own. -/
theorem table_apart_of_shared_name :
    let p : Plan Float32 := {
      songMs := none
      sections := [⟨"verse", 0, 4000, none, none, none, [⟨"ALL", {}⟩]⟩]
      templates := []
      appearances := [] }
    let rig : Rig Float32 := .ofFixtures [
      { id := "MH1", label := some "Head" },
      { id := "MH2", label := some "Head" },
      { id := "MH3" }]
    rig.NamesOne "MH3" ∧ ¬rig.NamesOne "Head" ∧
      ∃ s, p.render rig .standard = .ok s ∧ rig.ids.Nodup ∧
        (s.table rig).placements.Pairwise fun a b =>
          a.element = b.element → a.layer = b.layer → rig.NamesOne a.element → a.Apart b := by
  intro p rig
  obtain ⟨s, hs⟩ : ∃ s, p.render rig .standard = .ok s := ⟨_, rfl⟩
  have ids : rig.ids.Nodup := by decide
  exact ⟨by decide, by decide, s, hs, ids, table_apart hs ids⟩

/-- **Nothing else keeps placements apart.** Where every gap is filled, a table in which no two
placements meet on a layer of one element is that of a rig whose heads have different names. -/
theorem namesOne_of_apart (h : p.render rig settings = .ok s) (ids : rig.ids.Nodup)
    (every : settings.minGapMs ≤ 1) (song : 0 < p.songDurationMs)
    (apart : (s.table rig).placements.Pairwise fun a b =>
      a.element = b.element → a.layer = b.layer → a.Apart b) (name : String) :
    rig.NamesOne name := by
  obtain ⟨heads, turns⟩ := timelines_eq_map h
  have names := EffectTable.names_pairwise turns (Plan.exists_activeAt_of_render h every song) apart
  intro f hf g hg hfn hgn
  refine Classical.byContradiction fun differ => ?_
  have has_timeline : ∀ f ∈ rig.fixtures, ∃ t ∈ s.timelines, t.fixtureId = f.id := by
    intro f hf
    have listed : f.id ∈ s.timelines.map (·.fixtureId) := by
      rw [heads]
      exact List.mem_map_of_mem hf
    exact List.mem_map.mp listed
  obtain ⟨t, ht, t_id⟩ := has_timeline f hf
  obtain ⟨u, hu, u_id⟩ := has_timeline g hg
  have others : t ≠ u := by
    rintro rfl
    exact differ (t_id.symm.trans u_id)
  have found := Rig.get?_of_mem ids hf
  have found' := Rig.get?_of_mem ids hg
  rw [← t_id] at found
  rw [← u_id] at found'
  exact names.forall ht hu others f g found found' (hfn.trans hgn.symm)

/-- Of two heads with one name each has a first layer, and both layers are the same in the table. -/
theorem not_table_apart :
    ¬∀ (p : Plan Float32) (rig : Rig Float32) (settings : Settings Float32) (s : Show Float32),
      rig.ids.Nodup → p.render rig settings = .ok s →
      (s.table rig).placements.Pairwise fun a b =>
        a.element = b.element → a.layer = b.layer → a.Apart b := by
  intro apart
  let p : Plan Float32 := {
    songMs := none
    sections := [⟨"verse", 0, 4000, none, none, none, [⟨"ALL", {}⟩]⟩]
    templates := []
    appearances := [] }
  let rig : Rig Float32 :=
    .ofFixtures [{ id := "MH1", label := some "Head" }, { id := "MH2", label := some "Head" }]
  let settings : Settings Float32 := { Settings.standard with minGapMs := 1 }
  obtain ⟨s, hs⟩ : ∃ s, p.render rig settings = .ok s := ⟨_, rfl⟩
  have ids : rig.ids.Nodup := by decide
  have one := namesOne_of_apart hs ids (Nat.le_refl 1) (by decide) (apart p rig settings s ids hs)
    "Head"
  exact absurd (one _ List.mem_cons_self _ (List.mem_cons_of_mem _ List.mem_cons_self) rfl rfl)
    (by decide)

end Show

end MovingLight
