import Mathlib.Data.List.Nodup
import Mathlib.Data.Option.NAry
import MovingLight.Proofs.Sorting
import MovingLight.Table.Setting

/-!
# Assignments — who gets a channel that two want

A head may be patched so that one channel has several uses, and an effect need not say
something about all of them. `Use` names what there is to use a channel for, and
`ChannelMap.carried?` what a use puts on which channel, if it is patched and asked for.
Among uses of one channel the one that counts most gets it (`ChannelMap.Gets`): pan before
tilt, and so on down the list of `Use.all`.

Assignments are made without comparing uses. All that are available are written down in
the order of what counts, sorted by channel, and of neighbours on one channel the first is
kept. Sorting leaves those of one channel in their order, so the first of them is still the
one that counts most (`ChannelMap.mem_assignments_iff`).

Settings carry over what is assigned, and a writer that collects them in a map has nothing
to overwrite (`Effect.toList_settingsMap`): channels differ by then.
-/

namespace MovingLight

variable {α : Type}

/-! ## Keeping the first of each number -/

section FirstOfEach

variable {as : List (Nat × Assignment α)} {a : Nat × Assignment α}

theorem firstOfEach_sublist (as : List (Nat × Assignment α)) : (firstOfEach as).Sublist as := by
  fun_induction firstOfEach as with
  | case1 a b rest same ih =>
    exact ih.trans ((List.sublist_cons_self b rest).cons_cons a)
  | case2 a b rest differ ih => exact ih.cons_cons a
  | case3 as few => exact List.Sublist.refl as

/-- Of a sorted list one entry of each number is kept. -/
theorem firstOfEach_pairwise (ordered : as.Pairwise fun a b => a.1 ≤ b.1) :
    (firstOfEach as).Pairwise fun a b => a.1 < b.1 := by
  fun_induction firstOfEach as with
  | case1 a b rest same ih =>
    exact ih (ordered.sublist ((List.sublist_cons_self b rest).cons_cons a))
  | case2 a b rest differ ih =>
    obtain ⟨first, rest_ordered⟩ := List.pairwise_cons.mp ordered
    refine List.pairwise_cons.mpr ⟨fun c hc => ?_, ih rest_ordered⟩
    have hc := (firstOfEach_sublist _).subset hc
    have step : a.1 < b.1 := Nat.lt_of_le_of_ne (first b List.mem_cons_self) differ
    rcases List.mem_cons.mp hc with rfl | hc
    · exact step
    · exact Nat.lt_of_lt_of_le step (List.rel_of_pairwise_cons rest_ordered hc)
  | case3 as few =>
    match as with
    | [] => exact .nil
    | [a] => exact List.pairwise_singleton _ a
    | a :: b :: rest => exact (few a b rest rfl).elim

theorem find?_number_cons (number : Nat) (a : Nat × Assignment α) (as : List (Nat × Assignment α)) :
    (a :: as).find? (·.1 = number) =
      if a.1 = number then some a else as.find? (·.1 = number) := by
  by_cases here : a.1 = number <;> simp [here]

/-- **What is kept of a number is what is found first of it.** -/
theorem mem_firstOfEach_iff (ordered : as.Pairwise fun a b => a.1 ≤ b.1) :
    a ∈ firstOfEach as ↔ as.find? (·.1 = a.1) = some a := by
  fun_induction firstOfEach as with
  | case1 b c rest same ih =>
    rw [ih (ordered.sublist ((List.sublist_cons_self c rest).cons_cons b)),
      find?_number_cons a.1 b rest, find?_number_cons a.1 b (c :: rest),
      find?_number_cons a.1 c rest, ← same]
    by_cases here : b.1 = a.1
    · rw [if_pos here, if_pos here]
    · rw [if_neg here, if_neg here, if_neg here]
  | case2 b c rest differ ih =>
    obtain ⟨first, rest_ordered⟩ := List.pairwise_cons.mp ordered
    rw [List.mem_cons, ih rest_ordered, find?_number_cons a.1 b (c :: rest)]
    by_cases here : b.1 = a.1
    · -- what follows has greater numbers
      have later : (c :: rest).find? (·.1 = a.1) ≠ some a := by
        intro found
        have listed := List.mem_of_find?_eq_some found
        have above : c.1 ≤ a.1 := by
          rcases List.mem_cons.mp listed with rfl | listed
          · exact Nat.le_refl _
          · exact List.rel_of_pairwise_cons rest_ordered listed
        exact differ (Nat.le_antisymm (first c List.mem_cons_self) (here ▸ above))
      rw [if_pos here, or_iff_left later, Option.some_inj, eq_comm]
    · have other : a ≠ b := by
        rintro rfl
        exact here rfl
      rw [if_neg here, or_iff_right other]
  | case3 as few =>
    match as with
    | [] => simp
    | [b] =>
      rw [find?_number_cons, List.mem_singleton]
      by_cases here : b.1 = a.1
      · rw [if_pos here, Option.some_inj, eq_comm]
      · have other : a ≠ b := by
          rintro rfl
          exact here rfl
        simp [here, other]
    | a :: b :: rest => exact (few a b rest rfl).elim

end FirstOfEach

/-! ## Uses, the one that counts most first -/

/-- What a channel of a head may be used for. -/
inductive Use where
  | pan
  | tilt
  | dimmer
  | shutter
  | gobo
  | color
  | red
  | green
  | blue
  deriving DecidableEq, Repr

namespace Use

/-- Every use, the one that counts most first. -/
def all : List Use := [pan, tilt, dimmer, shutter, gobo, color, red, green, blue]

/-- The place of a use in the order of what counts. -/
def rank (u : Use) : Nat := all.idxOf u

theorem mem_all (u : Use) : u ∈ all := by
  cases u <;> decide

theorem all_pairwise : all.Pairwise fun u v => u.rank < v.rank := by decide

theorem find?_eq_some_iff {uses : List Use} (ordered : uses.Pairwise fun u v => u.rank < v.rank)
    {p : Use → Bool} {u : Use} :
    uses.find? p = some u ↔ u ∈ uses ∧ p u ∧ ∀ v ∈ uses, p v → u.rank ≤ v.rank := by
  induction uses with
  | nil => simp
  | cons w rest ih =>
    obtain ⟨first, rest_ordered⟩ := List.pairwise_cons.mp ordered
    cases fits : p w with
    | true =>
      rw [List.find?_cons_of_pos fits, Option.some_inj]
      constructor
      · rintro rfl
        refine ⟨List.mem_cons_self, fits, List.forall_mem_cons.mpr ⟨fun _ => Nat.le_refl _, ?_⟩⟩
        exact fun v hv _ => Nat.le_of_lt (first v hv)
      · rintro ⟨listed, -, least⟩
        rcases List.mem_cons.mp listed with rfl | listed
        · rfl
        · have above := first u listed
          exact absurd (least w List.mem_cons_self fits) (Nat.not_le_of_lt above)
    | false =>
      have unfit : ¬ p w = true := by simp [fits]
      rw [List.find?_cons_of_neg unfit, ih rest_ordered]
      constructor
      · rintro ⟨listed, fit, least⟩
        refine ⟨List.mem_cons_of_mem w listed, fit, List.forall_mem_cons.mpr ⟨?_, least⟩⟩
        exact fun misfit => absurd misfit unfit
      · rintro ⟨listed, fit, least⟩
        refine ⟨(List.mem_cons.mp listed).resolve_left ?_, fit, (List.forall_mem_cons.mp least).2⟩
        rintro rfl
        exact unfit fit

/-- What is found first among all uses is what counts most. -/
theorem find?_all_eq_some_iff {p : Use → Bool} {u : Use} :
    all.find? p = some u ↔ p u ∧ ∀ v, p v → u.rank ≤ v.rank := by
  simp only [find?_eq_some_iff all_pairwise, mem_all, true_and, forall_true_left]

end Use

namespace ChannelMap

/-- The channels of a mixture, of a head that has all three. -/
def mixture? (m : ChannelMap) : Option (Nat × Nat × Nat) :=
  match m.red, m.green, m.blue with
  | some r, some g, some b => some (r, g, b)
  | _, _, _ => none

/-- **What a use puts on which channel**, where the channel is patched and something is said about
it. A colour is a position of the wheel or a mixture, and so takes one channel or three. -/
def carried? (m : ChannelMap) (c : ChannelSet α) : Use → Option (Nat × Assignment α)
  | .pan => some (m.pan, .value c.pan)
  | .tilt => some (m.tilt, .value c.tilt)
  | .dimmer => some (m.dimmer, .value c.dimmer)
  | .shutter => Option.map₂ (fun n v => (n, .value v)) m.shutter c.shutter
  | .gobo => Option.map₂ (fun n v => (n, .value v)) m.gobo c.gobo
  | .color =>
    match c.color with
    | some (.wheel v) => m.color.map fun n => (n, .value v)
    | _ => none
  | .red =>
    match c.color with
    | some (.rgb r _ _) => m.mixture?.map fun n => (n.1, .byte r)
    | _ => none
  | .green =>
    match c.color with
    | some (.rgb _ g _) => m.mixture?.map fun n => (n.2.1, .byte g)
    | _ => none
  | .blue =>
    match c.color with
    | some (.rgb _ _ b) => m.mixture?.map fun n => (n.2.2, .byte b)
    | _ => none

/-- **A use gets its channel**: it puts something there, and no use that counts more does. -/
structure Gets (m : ChannelMap) (c : ChannelSet α) (u : Use) (a : Nat × Assignment α) : Prop where
  carried : m.carried? c u = some a
  first : ∀ v b, m.carried? c v = some b → b.1 = a.1 → u.rank ≤ v.rank

variable (m : ChannelMap) (c : ChannelSet α)

theorem assign?_eq_filterMap {u : Use} {number : Option Nat} {v : Option (ChannelValue α)}
    (h : m.carried? c u = Option.map₂ (fun n v => (n, .value v)) number v) :
    ChannelMap.assign? number v = [u].filterMap (m.carried? c) := by
  simp only [List.filterMap_cons, h, List.filterMap_nil]
  cases number <;> cases v <;> rfl

theorem assignColor_eq_filterMap :
    m.assignColor c.color = [Use.color, .red, .green, .blue].filterMap (m.carried? c) := by
  rcases said : c.color with _ | v | ⟨r, g, b⟩
  · simp [assignColor, carried?, said]
  · cases patched : m.color <;> simp [assignColor, assign?, carried?, said, patched]
  · -- of a mixture all three are assigned or none
    cases red : m.red <;> cases green : m.green <;> cases blue : m.blue <;>
      simp [assignColor, carried?, said, mixture?, red, green, blue]

/-- What is available is what the uses carry, in the order of what counts. -/
theorem available_eq : m.available c = Use.all.filterMap (m.carried? c) := by
  have parts : Use.all = [.pan, .tilt, .dimmer] ++ [.shutter] ++ [.gobo] ++
      [.color, .red, .green, .blue] := rfl
  have pose : [(m.pan, .value c.pan), (m.tilt, .value c.tilt), (m.dimmer, .value c.dimmer)] =
      [Use.pan, .tilt, .dimmer].filterMap (m.carried? c) := rfl
  rw [parts, List.filterMap_append, List.filterMap_append, List.filterMap_append, available, pose,
    m.assign?_eq_filterMap c (u := .shutter) rfl, m.assign?_eq_filterMap c (u := .gobo) rfl,
    m.assignColor_eq_filterMap c]

/-- What is found first of a channel is what the use of it that counts most carries. -/
theorem find?_available_eq_some_iff {a : Nat × Assignment α} :
    (m.available c).find? (·.1 = a.1) = some a ↔ ∃ u, m.Gets c u a := by
  have carries (v : Use) : ((m.carried? c v).any (·.1 = a.1)) = true ↔
      ∃ b, m.carried? c v = some b ∧ b.1 = a.1 := by
    cases m.carried? c v <;> simp
  rw [m.available_eq c, List.find?_filterMap, Option.bind_eq_some_iff]
  simp only [Use.find?_all_eq_some_iff, carries]
  constructor
  · rintro ⟨u, ⟨-, least⟩, taken⟩
    exact ⟨u, taken, fun v b carried same => least v ⟨b, carried, same⟩⟩
  · rintro ⟨u, taken, least⟩
    exact ⟨u, ⟨⟨a, taken, rfl⟩, fun v ⟨b, carried, same⟩ => least v b carried same⟩, taken⟩

theorem sorted_available_pairwise :
    ((m.available c).mergeSort fun a b => a.1 ≤ b.1).Pairwise fun a b => a.1 ≤ b.1 :=
  Sorting.pairwise_mergeSort Prod.fst (m.available c)

/-- **Assignments are what the uses get.** -/
theorem mem_assignments_iff {a : Nat × Assignment α} :
    a ∈ m.assignments c ↔ ∃ u, m.Gets c u a := by
  rw [assignments, mem_firstOfEach_iff (m.sorted_available_pairwise c),
    Sorting.find?_mergeSort Prod.fst, m.find?_available_eq_some_iff c]

theorem assignments_pairwise : (m.assignments c).Pairwise fun a b => a.1 < b.1 :=
  firstOfEach_pairwise (m.sorted_available_pairwise c)

/-- Whatever has a use is got by one. -/
theorem exists_gets_of_carried {u : Use} {a : Nat × Assignment α} (h : m.carried? c u = some a) :
    ∃ v b, m.Gets c v b ∧ b.1 = a.1 := by
  have available : a ∈ m.available c := by
    rw [m.available_eq c]
    exact List.mem_filterMap.mpr ⟨u, Use.mem_all u, h⟩
  have listed : ((m.available c).find? (·.1 = a.1)).isSome := by
    rw [List.find?_isSome]
    exact ⟨a, available, decide_eq_true rfl⟩
  obtain ⟨b, found⟩ := Option.isSome_iff_exists.mp listed
  have same : b.1 = a.1 := by simpa using List.find?_some found
  rw [← same] at found
  obtain ⟨v, gets⟩ := (m.find?_available_eq_some_iff c).mp found
  exact ⟨v, b, gets, same⟩

/-- The channels that are assigned are those that have a use. -/
theorem mem_numbers_iff (number : Nat) :
    number ∈ (m.assignments c).map Prod.fst ↔ ∃ u a, m.carried? c u = some (number, a) := by
  simp only [List.mem_map, m.mem_assignments_iff c]
  constructor
  · rintro ⟨⟨n, a⟩, ⟨u, gets⟩, rfl⟩
    exact ⟨u, a, gets.carried⟩
  · rintro ⟨u, a, carried⟩
    obtain ⟨v, b, gets, same⟩ := m.exists_gets_of_carried c carried
    exact ⟨b, ⟨v, gets⟩, same⟩

end ChannelMap

/-! ## Settings, each channel once -/

/-- Entries of different numbers in order are what a map makes of them. -/
theorem toList_ofList {β : Type} {entries : List (Nat × β)}
    (ordered : entries.Pairwise fun a b => a.1 < b.1) :
    (Std.TreeMap.ofList entries).toList = entries := by
  have collected : (Std.TreeMap.ofList entries).toList.Pairwise fun a b => a.1 < b.1 :=
    Std.TreeMap.ordered_keys_toList.imp Nat.compare_eq_lt.mp
  have distinct : entries.Pairwise fun a b => ¬ compare a.1 b.1 = .eq :=
    ordered.imp fun less same => Nat.ne_of_lt less (Nat.compare_eq_eq.mp same)
  have nodup {l : List (Nat × β)} (h : l.Pairwise fun a b => a.1 < b.1) : l.Nodup :=
    h.imp fun less same => Nat.ne_of_lt less (congrArg Prod.fst same)
  refine List.Perm.eq_of_pairwise ?_ collected ordered ?_
  · exact fun a b _ _ less more => absurd less (Nat.lt_asymm more)
  · refine (List.perm_ext_iff_of_nodup (nodup collected) (nodup ordered)).mpr fun ⟨n, b⟩ => ?_
    rw [Std.TreeMap.mem_toList_iff_getElem?_eq_some]
    constructor
    · intro held
      have named : (entries.map Prod.fst).contains n = true := by
        by_contra missing
        rw [Std.TreeMap.getElem?_ofList_of_contains_eq_false (Bool.not_eq_true _ ▸ missing)] at held
        contradiction
      obtain ⟨⟨k, b'⟩, listed, rfl⟩ := List.mem_map.mp (List.contains_iff_mem.mp named)
      have other := Std.TreeMap.getElem?_ofList_of_mem Std.ReflCmp.compare_self distinct listed
      rw [other, Option.some_inj] at held
      exact held ▸ listed
    · exact Std.TreeMap.getElem?_ofList_of_mem Std.ReflCmp.compare_self distinct

variable [Scalar α]

/-- The settings of an effect as a writer with a map collects them, a later one of a channel in
place of an earlier one. -/
def Effect.settingsMap (e : Effect α) (f : Fixture α) : Std.TreeMap Nat ChannelSetting :=
  Std.TreeMap.ofList
    ((f.channels.assignments e.channels).map fun a => (a.1, a.2.setting a.1))

theorem Effect.settings_pairwise (e : Effect α) (f : Fixture α) :
    (e.settings f).channels.Pairwise fun a b => a.1 < b.1 :=
  List.pairwise_map.mpr (f.channels.assignments_pairwise e.channels)

/-- **A map has nothing to overwrite.** -/
theorem Effect.toList_settingsMap (e : Effect α) (f : Fixture α) :
    (e.settingsMap f).toList = (e.settings f).channels :=
  toList_ofList (e.settings_pairwise f)

/-- A channel has the setting of the use that gets it. -/
theorem Effect.mem_settings_iff (e : Effect α) (f : Fixture α) (number : Nat)
    (setting : ChannelSetting) :
    (number, setting) ∈ (e.settings f).channels ↔
      ∃ u a, f.channels.Gets e.channels u (number, a) ∧ setting = a.setting number := by
  unfold Effect.settings
  simp only [List.mem_map, f.channels.mem_assignments_iff e.channels, Prod.mk.injEq]
  constructor
  · rintro ⟨⟨n, a⟩, ⟨u, gets⟩, rfl, rfl⟩
    exact ⟨u, a, gets, rfl⟩
  · rintro ⟨u, a, gets, rfl⟩
    exact ⟨(number, a), ⟨u, gets⟩, rfl, rfl⟩

/-- A channel has one setting. -/
theorem Effect.setting_unique (e : Effect α) (f : Fixture α) {number : Nat}
    {setting other : ChannelSetting} (h : (number, setting) ∈ (e.settings f).channels)
    (h' : (number, other) ∈ (e.settings f).channels) : setting = other := by
  have distinct : ((e.settings f).channels.map Prod.fst).Nodup :=
    List.pairwise_map.mpr ((e.settings_pairwise f).imp Nat.ne_of_lt)
  exact congrArg Prod.snd (List.inj_on_of_nodup_map distinct h h' rfl)

/-- **Each channel that has a use is set once, by the use that counts most.** What is available is
what the uses carry: pan, tilt and dimmer always, the others where they are patched and asked for.
Assignments go up in their numbers, which are those of the channels that have a use, and each is of
the use that gets the channel. The settings made of them are the ones a map of them has, and a
channel never has both a slider and a curve. -/
theorem Effect.settings_each_channel_once (e : Effect α) (f : Fixture α) :
    let m := f.channels
    let assigned := m.assignments e.channels
    let channels := (e.settings f).channels
    m.available e.channels = Use.all.filterMap (m.carried? e.channels) ∧
    assigned.Pairwise (fun a b => a.1 < b.1) ∧
    (∀ n, n ∈ assigned.map Prod.fst ↔ ∃ u a, m.carried? e.channels u = some (n, a)) ∧
    (∀ a, a ∈ assigned ↔ ∃ u, m.Gets e.channels u a) ∧
    (e.settingsMap f).toList = channels ∧
    channels.map Prod.fst = assigned.map Prod.fst ∧
    (∀ n s, (n, s) ∈ channels ↔ ∃ u a, m.Gets e.channels u (n, a) ∧ s = a.setting n) ∧
    ∀ n level descriptor, ¬ ((n, .slider level) ∈ channels ∧ (n, .curve descriptor) ∈ channels) := by
  intro m assigned channels
  refine ⟨m.available_eq e.channels, m.assignments_pairwise e.channels,
    m.mem_numbers_iff e.channels, fun _ => m.mem_assignments_iff e.channels,
    e.toList_settingsMap f, List.map_map, e.mem_settings_iff f, ?_⟩
  rintro n level descriptor ⟨slider, curve⟩
  exact ChannelSetting.noConfusion (e.setting_unique f slider curve)

end MovingLight
