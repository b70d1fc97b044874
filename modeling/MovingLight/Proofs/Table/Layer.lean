import Mathlib.Data.Finset.Card
import Mathlib.Data.List.Perm.Subperm
import Mathlib.Order.Bounds.Basic
import MovingLight.Proofs.Table
import MovingLight.Proofs.Table.Listing

/-!
# Fewest layers — as many as are active at one time

Effects of one head that come in order of their start may overlap to any depth. Two that are
active together need two layers, so no choice of layers gets by with fewer than are ever active
at one time (`Timeline.Layered.depthAt_le`). Taking the first layer that is free needs no more:
a layer is opened only when all there are still hold an effect, and those effects started before
and end later, so all of them are active at that moment, with the one that is to be placed
(`EffectTable.length_le_depthAt`).

What carries the argument is that the ends of the layers are ends of different effects. They are
kept as a list without order, counted with repetitions (`EffectTable.takeLayer_subperm`), because
an effect that is placed takes the end of another off the list, and because two effects may end
at one time.
-/

namespace MovingLight

variable {α : Type}

/-- Some moment has both effects active. -/
def Effect.Overlaps (a b : Effect α) : Prop := ∃ time, a.ActiveAt time ∧ b.ActiveAt time

instance (e : Effect α) (time : Nat) : Decidable (e.ActiveAt time) :=
  inferInstanceAs (Decidable (_ ∧ _))

/-- Where one of two effects is over before the other starts, no moment has both. -/
theorem Effect.Apart.not_overlaps {a b : Effect α} (h : a.Apart b) : ¬a.Overlaps b := by
  rintro ⟨time, ha, hb⟩
  unfold Effect.Apart at h
  unfold Effect.ActiveAt at ha hb
  omega

namespace Timeline

/-- **How many effects are active at a time.** -/
def depthAt (effects : List (Effect α)) (time : Nat) : Nat := effects.countP (·.ActiveAt time)

/-- **A choice of layers**, one for each effect, that puts no two effects onto one layer that
overlap. -/
structure Layered (effects : List (Effect α)) (layers : List Nat) : Prop where
  length_eq : layers.length = effects.length
  apart : (effects.zip layers).Pairwise fun a b => a.2 = b.2 → ¬a.1.Overlaps b.1

/-- **Every choice of layers has as many as are active at one time**: those effects are all on
different ones. -/
theorem Layered.depthAt_le {effects : List (Effect α)} {layers : List Nat}
    (h : Layered effects layers) (time : Nat) : depthAt effects time ≤ layers.toFinset.card := by
  let active := (effects.zip layers).filter fun a => a.1.ActiveAt time
  have different : (active.map Prod.snd).Nodup := by
    refine List.pairwise_map.mpr ((h.apart.filter _).imp_of_mem ?_)
    intro a b ha hb apart same
    refine apart same ⟨time, ?_, ?_⟩
    · exact of_decide_eq_true (List.mem_filter.mp ha).2
    · exact of_decide_eq_true (List.mem_filter.mp hb).2
  have inside : (active.map Prod.snd).toFinset ⊆ layers.toFinset := by
    intro layer mem
    obtain ⟨a, ha, rfl⟩ := List.mem_map.mp (List.mem_toFinset.mp mem)
    exact List.mem_toFinset.mpr (List.of_mem_zip (List.mem_filter.mp ha).1).2
  calc depthAt effects time
      = ((effects.zip layers).map Prod.fst).countP (·.ActiveAt time) := by
        rw [List.map_fst_zip (Nat.le_of_eq h.length_eq.symm), depthAt]
    _ = active.length := by
        rw [List.countP_map, List.countP_eq_length_filter]
        rfl
    _ = (active.map Prod.snd).toFinset.card := by
        rw [List.toFinset_card_of_nodup different, List.length_map]
    _ ≤ layers.toFinset.card := Finset.card_le_card inside

/-- **As few layers as there can be**: they keep effects apart that overlap, there are as many as
effects are ever active at one time, and no other choice has fewer. -/
structure FewestLayers (effects : List (Effect α)) (layers : List Nat) : Prop where
  layered : Layered effects layers
  greatest : IsGreatest (Set.range (depthAt effects)) layers.toFinset.card
  least : ∀ others, Layered effects others → layers.toFinset.card ≤ others.toFinset.card

/-- Layers that are all needed at one time are as few as there can be. -/
theorem Layered.fewest {effects : List (Effect α)} {layers : List Nat}
    (h : Layered effects layers) {time : Nat}
    (needed : layers.toFinset.card ≤ depthAt effects time) : FewestLayers effects layers where
  layered := h
  greatest := ⟨⟨time, Nat.le_antisymm (h.depthAt_le time) needed⟩,
    Set.forall_mem_range.mpr h.depthAt_le⟩
  least _ apart := Nat.le_trans needed (apart.depthAt_le time)

theorem fewestLayers_nil : FewestLayers ([] : List (Effect α)) [] :=
  Layered.fewest ⟨rfl, .nil⟩ (Nat.zero_le (depthAt [] 0))

end Timeline

namespace EffectTable

open scoped List
open Timeline (Queue Layered FewestLayers depthAt)

variable {startMs endMs : Nat}

/-! ## Taking a layer -/

/-- The ends of all layers are those before and the new one, less the one that is over. -/
theorem takeLayer_subperm (ends : List Nat) :
    (takeLayer startMs endMs ends).2 <+~ endMs :: ends := by
  induction ends with
  | nil => exact List.Subperm.refl _
  | cons e rest ih =>
    rw [takeLayer]
    split
    · exact ((List.sublist_cons_self e rest).cons_cons endMs).subperm
    · exact ((List.subperm_cons e).mpr ih).trans (List.Perm.swap endMs e rest).subperm

/-- There is a layer more at most, the one taken. -/
theorem lt_length_takeLayer (ends : List Nat) (layer : Nat) :
    layer < (takeLayer startMs endMs ends).2.length ↔
      layer < ends.length ∨ layer = (takeLayer startMs endMs ends).1 := by
  induction ends generalizing layer with
  | nil => simp [takeLayer]
  | cons e rest ih =>
    rw [takeLayer]
    split
    · simp only [List.length_cons]
      omega
    · cases layer with
      | zero => simp
      | succ layer => simpa using ih layer

/-- A layer is opened only if all there are still hold an effect. -/
theorem takeLayer_opens (ends : List Nat) :
    (takeLayer startMs endMs ends).2.length = ends.length ∨
      (takeLayer startMs endMs ends).2.length = ends.length + 1 ∧ ∀ time ∈ ends, startMs < time := by
  induction ends with
  | nil => exact Or.inr ⟨rfl, List.forall_mem_nil _⟩
  | cons e rest ih =>
    rw [takeLayer]
    split
    · exact Or.inl rfl
    · rename_i taken
      rcases ih with kept | ⟨opened, all⟩
      · exact Or.inl (congrArg (· + 1) kept)
      · refine Or.inr ⟨congrArg (· + 1) opened, ?_⟩
        exact List.forall_mem_cons.mpr ⟨Nat.lt_of_not_le taken, all⟩

/-- **Layers that are taken hold effects that are active**, if these have started. -/
theorem length_le_depthAt {past : List (Effect α)} {ends : List Nat} {time : Nat}
    (held : ends <+~ past.map (·.endMs)) (started : ∀ p ∈ past, p.startMs ≤ time)
    (taken : ∀ t ∈ ends, time < t) : ends.length ≤ depthAt past time := by
  have ending : ∀ p ∈ past, decide (time < p.endMs) = true ↔ decide (p.ActiveAt time) = true :=
    fun p hp => by
      rw [decide_eq_true_iff, decide_eq_true_iff, Effect.ActiveAt]
      exact ⟨fun later => ⟨started p hp, later⟩, And.right⟩
  calc ends.length
      = ends.countP (time < ·) :=
        (List.countP_eq_length.mpr fun t ht => decide_eq_true (taken t ht)).symm
    _ ≤ (past.map (·.endMs)).countP (time < ·) := held.countP_le _
    _ = past.countP fun p => time < p.endMs := List.countP_map
    _ = depthAt past time := List.countP_congr ending

/-! ## The effects of one head -/

variable [Scalar α]

/-- **Which layers come into use**, where so many are there before. -/
structure Opens (past effects : List (Effect α)) (before : Nat) (layers : List Nat)
    (after : Nat) : Prop where
  lt_iff : ∀ layer, layer < after ↔ layer < before ∨ layer ∈ layers
  enough : after ≤ before ∨ ∃ time, after ≤ depthAt (past ++ effects) time

/-- **As many layers are opened as are needed at some time.** The effects that follow are placed
behind those of the past, whose ends the layers have; the induction hands each effect it has
placed on to the past. -/
theorem opens_placeAll (f : Fixture α) (texts : List String) {past effects : List (Effect α)}
    {ends : List Nat} (held : ends <+~ past.map (·.endMs)) (queue : Queue (past ++ effects)) :
    ∃ after, Opens past effects ends.length ((placeAll f ends texts effects).1.map (·.layer))
      after := by
  induction effects generalizing past ends texts with
  | nil => exact ⟨ends.length, by simp [placeAll], Or.inl (Nat.le_refl _)⟩
  | cons e rest ih =>
    have held' : (takeLayer e.startMs e.endMs ends).2 <+~ (past ++ [e]).map (·.endMs) := by
      rw [List.map_append]
      exact ((takeLayer_subperm ends).trans ((List.subperm_cons e.endMs).mpr held)).trans
        (List.perm_append_singleton e.endMs _).symm.subperm
    have moved : past ++ e :: rest = past ++ [e] ++ rest := by simp
    rw [moved] at queue
    obtain ⟨after, lt_iff, enough⟩ := ih (intern texts (e.settings f).encode).2 held' queue
    refine ⟨after, fun layer => ?_, ?_⟩
    · rw [lt_iff, lt_length_takeLayer, placeAll, List.map_cons, List.mem_cons, or_assoc]
    · rw [moved]
      rcases enough with few | enough
      · rcases takeLayer_opens ends with kept | ⟨opened, taken⟩
        · exact Or.inl (kept ▸ few)
        · have started : ∀ p ∈ past, p.startMs ≤ e.startMs := fun p hp =>
            (List.pairwise_append.mp (List.pairwise_append.mp queue.ordered).1).2.2 p hp e
              List.mem_cons_self
          have active : e.ActiveAt e.startMs := ⟨Nat.le_refl _, queue.lasts e (by simp)⟩
          refine Or.inr ⟨e.startMs, ?_⟩
          calc after
              ≤ ends.length + 1 := opened ▸ few
            _ ≤ depthAt past e.startMs + 1 :=
              Nat.succ_le_succ (length_le_depthAt held started taken)
            _ = depthAt (past ++ [e]) e.startMs := by
              simp [depthAt, active]
            _ ≤ depthAt (past ++ [e] ++ rest) e.startMs :=
              (List.sublist_append_left _ _).countP_le
      · exact Or.inr enough

omit [Scalar α] in
theorem Opens.card_eq {effects : List (Effect α)} {layers : List Nat} {after : Nat}
    (h : Opens [] effects 0 layers after) : layers.toFinset.card = after := by
  have used : layers.toFinset = Finset.range after := by
    ext layer
    rw [List.mem_toFinset, Finset.mem_range, h.lt_iff]
    simp
  rw [used, Finset.card_range]

/-- Layers that keep the placements of a head apart keep its effects apart. -/
theorem layered_placeAll (f : Fixture α) (texts : List String) {effects : List (Effect α)}
    (queue : Queue effects) :
    Layered effects ((placeAll f [] texts effects).1.map (·.layer)) := by
  have lists := List.forall₂_map_left_iff.mp (adds_placeAll f [] texts effects).lists
  have layers := (placeAll_layers f [] texts fun e he => Nat.le_of_lt (queue.lasts e he)).2
  generalize (placeAll f [] texts effects).1 = own at lists layers
  refine ⟨by rw [List.length_map, lists.length_eq], ?_⟩
  have spaced : ((effects.zip own).map Prod.snd).Pairwise fun a b =>
      a.layer = b.layer → a.endMs ≤ b.startMs := by
    rwa [List.map_snd_zip (Nat.le_of_eq lists.length_eq.symm)]
  rw [List.zip_map_right]
  refine List.pairwise_map.mpr ((List.pairwise_map.mp spaced).imp_of_mem ?_)
  rintro ⟨e, p⟩ ⟨n, q⟩ he hn turn same
  have first := List.forall₂_zip lists he
  have second := List.forall₂_zip lists hn
  refine Effect.Apart.not_overlaps (Or.inl ?_)
  show e.endMs ≤ n.startMs
  calc e.endMs
      = p.endMs := first.endMs.symm
    _ ≤ q.startMs := turn same
    _ = n.startMs := second.startMs

/-- **The first layer that is free makes as few layers as there can be.** -/
theorem fewestLayers_placeAll (f : Fixture α) (texts : List String) {effects : List (Effect α)}
    (queue : Queue effects) :
    FewestLayers effects ((placeAll f [] texts effects).1.map (·.layer)) := by
  have held : [] <+~ ([] : List (Effect α)).map (·.endMs) := List.Subperm.refl _
  obtain ⟨after, opens⟩ := opens_placeAll f texts held queue
  have needed : ∃ time, after ≤ depthAt effects time :=
    opens.enough.elim (fun none => ⟨0, Nat.le_trans none (Nat.zero_le _)⟩) id
  obtain ⟨time, needed⟩ := needed
  rw [← opens.card_eq] at needed
  exact (layered_placeAll f texts queue).fewest needed

end EffectTable

namespace Show

variable [Scalar α]

/-- **A table takes as few layers as there can be.** The placements of a timeline whose effects
come in order of their start lie on as many layers as effects are ever active at one time, and no
two that overlap on one. A head that the rig does not have is not placed at all. -/
theorem table_layers_fewest {s : Show α} {before after : List (HeadTimeline α)}
    {h : HeadTimeline α} (split : s.timelines = before ++ h :: after)
    (queue : Timeline.Queue h.effects) (rig : Rig α) :
    ∃ own later,
      (s.table rig).placements =
        (Show.table { s with timelines := before } rig).placements ++ own ++ later ∧
      List.Forall₂ (EffectTable.Lists (s.table rig).settings) (rig.listed h) own ∧
      Timeline.FewestLayers ((rig.listed h).map Prod.snd) (own.map (·.layer)) := by
  let t := Show.table { s with timelines := before } rig
  have table_eq : s.table rig =
      after.foldl (EffectTable.addTimeline rig) (t.addTimeline rig h) := by
    rw [Show.table, split, List.foldl_append, List.foldl_cons]
    rfl
  obtain ⟨own, adds⟩ := EffectTable.adds_addTimeline rig t h
  obtain ⟨later, grown, kept⟩ := EffectTable.exists_adds_foldl rig after (t.addTimeline rig h)
  refine ⟨EffectTable.placed rig t.settings h, later, ?_, ?_, ?_⟩
  · rw [table_eq, grown, own]
  · rw [table_eq]
    exact adds.lists.imp fun _ _ => EffectTable.Lists.mono kept.kept
  · unfold Rig.listed EffectTable.placed
    cases rig.get? h.fixtureId with
    | none => exact Timeline.fewestLayers_nil
    | some f =>
      have effects : (h.effects.map fun e => (f, e)).map Prod.snd = h.effects := by simp
      dsimp only
      rw [effects]
      exact EffectTable.fewestLayers_placeAll f t.settings queue

/-- Six effects of one head, three of which are active at one time, behind the effects of another
head that come in no order. -/
theorem table_layers_fewest_of_nested :
    let effect (id : String) (startMs endMs : Nat) : Effect Float32 := {
      fixtureId := id
      startMs := startMs
      endMs := endMs
      channels := { pan := .hold 0, tilt := .hold 100, dimmer := .hold 255 }
      boundary := {}
      label := ""
      metadata := [] }
    let first : HeadTimeline Float32 := ⟨"MH1", [effect "MH1" 500 900, effect "MH1" 0 900]⟩
    let h : HeadTimeline Float32 := ⟨"MH2", [effect "MH2" 0 4000, effect "MH2" 1000 2000,
      effect "MH2" 1000 3000, effect "MH2" 2000 2500, effect "MH2" 3000 6000,
      effect "MH2" 3500 5000]⟩
    let s : Show Float32 := ⟨6000, [first, h], []⟩
    let rig : Rig Float32 := .ofFixtures [{ id := "MH1" }, { id := "MH2" }]
    Timeline.Queue h.effects ∧ ∃ own later,
      (s.table rig).placements =
        (Show.table { s with timelines := [first] } rig).placements ++ own ++ later ∧
      List.Forall₂ (EffectTable.Lists (s.table rig).settings) (rig.listed h) own ∧
      Timeline.FewestLayers ((rig.listed h).map Prod.snd) (own.map (·.layer)) := by
  intro effect first h s rig
  have queue : Timeline.Queue h.effects := by
    refine ⟨?_, ?_⟩ <;> decide
  have split : s.timelines = [first] ++ h :: [] := rfl
  exact ⟨queue, table_layers_fewest split queue rig⟩

end Show

end MovingLight
