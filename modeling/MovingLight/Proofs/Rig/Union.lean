import MovingLight.Proofs.Checked.Rig

/-!
# Targets joined

A comma between two specs puts the parts of the second after those of the first
(`Target.parts_join`), and a spec that has a part is never taken for an empty one
(`Target.parts_eq_nil_of_blank`), so a target of several parts reduces to its parts.

They are looked up from left to right. All of them are found or the first that is not decides
the error (`Target.resolve_eq_error_iff`). What was found is a set of places: it is read
off all places of the stage in order, so neither the order of the parts nor how often a place
is named shows in the heads (`Target.resolve_congr`). Joining two specs is then the union of
their sets.

A spec without any part is no such set. A text of blanks is an error, while a lone comma
names no head and is none, and joining `","` to `" "` by a comma resolves although the second
of them does not.
-/

namespace MovingLight

namespace Checked

variable {ε β γ : Type} {f : β → Except ε γ}

/-- Each item of a list comes to something that is in what the list comes to. -/
theorem exists_mem_of_mapM {xs : List β} {ys : List γ} (h : xs.mapM f = .ok ys) :
    ∀ x ∈ xs, ∃ y ∈ ys, f x = .ok y := by
  induction xs generalizing ys with
  | nil => exact List.forall_mem_nil _
  | cons x rest ih =>
    rw [List.mapM_cons] at h
    obtain ⟨y, first, h⟩ := exists_of_bind_eq_ok h
    obtain ⟨others, later, h⟩ := exists_of_bind_eq_ok h
    cases h
    refine List.forall_mem_cons.mpr ⟨⟨y, List.mem_cons_self, first⟩, fun z hz => ?_⟩
    obtain ⟨w, hw, made⟩ := ih later z hz
    exact ⟨w, List.mem_cons_of_mem y hw, made⟩

/-- A list comes to something if each of its items does. -/
theorem exists_mapM_eq_ok {xs : List β} (h : ∀ x ∈ xs, ∃ y, f x = .ok y) :
    ∃ ys, xs.mapM f = .ok ys := by
  induction xs with
  | nil => exact ⟨[], rfl⟩
  | cons x rest ih =>
    obtain ⟨⟨y, first⟩, later⟩ := List.forall_mem_cons.mp h
    obtain ⟨ys, others⟩ := ih later
    exact ⟨y :: ys, by rw [List.mapM_cons, first, others]; rfl⟩

/-- What is made of an answer fails only as the answer does. -/
theorem bind_pure_eq_error_iff {x : Except ε β} {g : β → γ} {e : ε} :
    (do return g (← x)) = .error e ↔ x = .error e := by
  cases x with
  | error e' => exact ⟨fun h => by cases h; rfl, fun h => by cases h; rfl⟩
  | ok y => exact ⟨nofun, nofun⟩

/-- A list fails as the first of its items that fails does. -/
theorem mapM_eq_error_iff {xs : List β} {e : ε} :
    xs.mapM f = .error e ↔
      ∃ before x after, xs = before ++ x :: after ∧
        (∀ y ∈ before, ∃ z, f y = .ok z) ∧ f x = .error e := by
  induction xs with
  | nil => simp [pure, Except.pure]
  | cons x rest ih =>
    rw [List.mapM_cons]
    cases first : f x with
    | error e' =>
      constructor
      · intro h
        cases h
        exact ⟨[], x, rest, rfl, List.forall_mem_nil _, first⟩
      · rintro ⟨before, y, after, split, found, fails⟩
        cases before with
        | nil =>
          cases split
          exact congrArg Except.error (Except.error.inj (first.symm.trans fails))
        | cons w before =>
          cases split
          obtain ⟨z, hz⟩ := found x List.mem_cons_self
          cases first.symm.trans hz
    | ok y =>
      change (do return y :: (← rest.mapM f)) = .error e ↔ _
      rw [bind_pure_eq_error_iff, ih]
      constructor
      · rintro ⟨before, w, after, rfl, found, fails⟩
        exact ⟨x :: before, w, after, rfl, List.forall_mem_cons.mpr ⟨⟨y, first⟩, found⟩, fails⟩
      · rintro ⟨before, w, after, split, found, fails⟩
        cases before with
        | nil =>
          cases split
          cases first.symm.trans fails
        | cons _ before =>
          cases split
          exact ⟨before, w, after, rfl, (List.forall_mem_cons.mp found).2, fails⟩

end Checked

namespace Target

variable {α : Type} {rig : Rig α}

/-! ## Parts -/

theorem pieces_ne_nil (sep : Char) (cs : List Char) : pieces sep cs ≠ [] := by
  cases cs with
  | nil => exact List.cons_ne_nil _ _
  | cons c cs =>
    rw [pieces]
    split
    · exact List.cons_ne_nil _ _
    · split <;> exact List.cons_ne_nil _ _

theorem pieces_of_notMem {sep : Char} {cs : List Char} (h : sep ∉ cs) : pieces sep cs = [cs] := by
  induction cs with
  | nil => rfl
  | cons c cs ih =>
    rw [List.mem_cons, not_or] at h
    rw [pieces, if_neg (Ne.symm h.1), ih h.2]

/-- A separator ends a piece and begins another. -/
theorem pieces_append (sep : Char) (xs ys : List Char) :
    pieces sep (xs ++ sep :: ys) = pieces sep xs ++ pieces sep ys := by
  induction xs with
  | nil => simp [pieces]
  | cons c xs ih =>
    rw [List.cons_append, pieces, pieces, ih]
    split
    · rfl
    · cases first : pieces sep xs with
      | nil => exact absurd first (pieces_ne_nil sep xs)
      | cons p ps => rfl

/-- **The parts of two specs joined are those of the first, then those of the second.** -/
theorem parts_join (a b : String) : parts (a ++ "," ++ b) = parts a ++ parts b := by
  have joined : (a ++ "," ++ b).toList = a.toList ++ ',' :: b.toList := by
    simp only [String.toList_append, List.append_assoc]
    rfl
  rw [parts, joined, pieces_append, List.map_append, List.filter_append]
  rfl

theorem isBlank_of_trimChars {cs : List Char} (h : Text.trimChars cs = []) :
    ∀ c ∈ cs, Text.isBlank c = true := by
  intro c hc
  rw [Text.trimChars, List.reverse_eq_nil_iff, List.dropWhile_eq_nil_iff] at h
  rw [← List.takeWhile_append_dropWhile (p := Text.isBlank) (l := cs), List.mem_append] at hc
  exact hc.elim List.mem_takeWhile_imp fun hc => h c (List.mem_reverse.mpr hc)

/-- A text of blanks has no part. -/
theorem parts_eq_nil_of_blank {spec : String} (h : Text.trim spec = "") : parts spec = [] := by
  have trimmed : Text.trimChars spec.toList = [] := String.ofList_eq_empty_iff.mp h
  have whole : pieces ',' spec.toList = [spec.toList] :=
    pieces_of_notMem fun comma => absurd (isBlank_of_trimChars trimmed ',' comma) (by decide)
  simp [parts, whole, trimmed]

/-! ## Places -/

/-- A part that stands for some places. -/
def Stands (rig : Rig α) (part : String) : Prop :=
  ∃ places, resolvePart rig part = .ok places

/-- A spec names a place: one of its parts stands for places this one is among. -/
def Names (rig : Rig α) (spec : String) (i : Nat) : Prop :=
  ∃ part ∈ parts spec, ∃ places, resolvePart rig part = .ok places ∧ i ∈ places

/-- The leftmost part of a list that stands for nothing, and its error. -/
def FailsFirst (rig : Rig α) (ps : List String) (e : ShowError) : Prop :=
  ∃ before part after, ps = before ++ part :: after ∧
    (∀ p ∈ before, Stands rig p) ∧ resolvePart rig part = .error e

/-- Places of heads and the ids found there, from left to right, each place once. -/
structure InStageOrder (rig : Rig α) (places : List Nat) (ids : List String) : Prop where
  rising : places.Pairwise (· < ·)
  onStage : ∀ i ∈ places, i < rig.size
  ids_eq : ids.map some = places.map (rig.ids[·]?)

theorem InStageOrder.ids_unique {places : List Nat} {ids ids' : List String}
    (h : InStageOrder rig places ids) (h' : InStageOrder rig places ids') : ids = ids' :=
  List.map_injective_iff.mpr (Option.some_injective _) (h.ids_eq.trans h'.ids_eq.symm)

theorem trim_ne_of_parts {spec : String} (has : parts spec ≠ []) : Text.trim spec ≠ "" :=
  fun blank => has (parts_eq_nil_of_blank blank)

/-- A spec that has a part resolves if all its parts stand for some places. -/
theorem exists_resolve_eq_ok_iff {spec : String} (has : parts spec ≠ []) :
    (∃ ids, resolve rig spec = .ok ids) ↔ ∀ part ∈ parts spec, Stands rig part := by
  rw [resolve, resolvePlaces, if_neg (trim_ne_of_parts has)]
  constructor
  · rintro ⟨ids, h⟩ part hpart
    obtain ⟨_, h, _⟩ := Checked.exists_of_bind_eq_ok h
    obtain ⟨_, found, _⟩ := Checked.exists_of_bind_eq_ok h
    obtain ⟨places, _, stands⟩ := Checked.exists_mem_of_mapM found part hpart
    exact ⟨places, stands⟩
  · intro stands
    obtain ⟨named, found⟩ := Checked.exists_mapM_eq_ok stands
    exact ⟨_, by rw [found]; rfl⟩

/-- **The leftmost part that stands for nothing decides the error.** -/
theorem resolve_eq_error_iff {spec : String} (has : parts spec ≠ []) {e : ShowError} :
    resolve rig spec = .error e ↔ FailsFirst rig (parts spec) e := by
  have looked : resolve rig spec = .error e ↔ (parts spec).mapM (resolvePart rig) = .error e := by
    rw [resolve, resolvePlaces, if_neg (trim_ne_of_parts has), Checked.bind_pure_eq_error_iff,
      Checked.bind_pure_eq_error_iff]
  rw [looked, Checked.mapM_eq_error_iff]
  rfl

theorem resolvePlaces_eq_ok {spec : String} {places : List Nat}
    (h : resolvePlaces rig spec = .ok places) :
    ∃ named, (parts spec).mapM (resolvePart rig) = .ok named ∧
      places = (List.range rig.size).filter fun i => named.any (·.contains i) := by
  unfold resolvePlaces at h
  split at h
  case isTrue => cases h
  case isFalse =>
    obtain ⟨named, found, h⟩ := Checked.exists_of_bind_eq_ok h
    cases h
    exact ⟨named, found, rfl⟩

theorem pairwise_of_resolvePlaces {spec : String} {places : List Nat}
    (h : resolvePlaces rig spec = .ok places) : places.Pairwise (· < ·) := by
  obtain ⟨named, -, rfl⟩ := resolvePlaces_eq_ok h
  exact List.pairwise_lt_range.filter _

theorem Names.lt_size {spec : String} {i : Nat} : Names rig spec i → i < rig.size :=
  fun ⟨_, _, _, stands, hi⟩ => lt_of_resolvePart stands i hi

/-- The places found are those that a spec names. -/
theorem mem_of_resolvePlaces {spec : String} {places : List Nat}
    (h : resolvePlaces rig spec = .ok places) (i : Nat) : i ∈ places ↔ Names rig spec i := by
  obtain ⟨named, found, rfl⟩ := resolvePlaces_eq_ok h
  have gathered : (∃ places ∈ named, i ∈ places) ↔ Names rig spec i := by
    constructor
    · rintro ⟨places, hplaces, hi⟩
      obtain ⟨part, hpart, stands⟩ := Checked.exists_of_mem_mapM found places hplaces
      exact ⟨part, hpart, places, stands, hi⟩
    · rintro ⟨part, hpart, places, stands, hi⟩
      obtain ⟨places', hplaces', stands'⟩ := Checked.exists_mem_of_mapM found part hpart
      cases stands.symm.trans stands'
      exact ⟨places, hplaces', hi⟩
  simp only [List.mem_filter, List.mem_range, List.any_eq_true, List.contains_iff_mem]
  rw [gathered]
  exact ⟨And.right, fun names => ⟨names.lt_size, names⟩⟩

/-- **A spec resolves to the heads at the places it names.** -/
theorem exists_inStageOrder {spec : String} {ids : List String} (h : resolve rig spec = .ok ids) :
    ∃ places, InStageOrder rig places ids ∧ ∀ i, i ∈ places ↔ Names rig spec i := by
  obtain ⟨places, resolved, h⟩ := Checked.exists_of_bind_eq_ok h
  cases h
  have onStage : ∀ i ∈ places, i < rig.size := fun i hi =>
    ((mem_of_resolvePlaces resolved i).mp hi).lt_size
  refine ⟨places, ⟨pairwise_of_resolvePlaces resolved, onStage, ?_⟩, mem_of_resolvePlaces resolved⟩
  rw [List.map_filterMap, List.filterMap_eq_map_iff_forall_eq_some]
  intro i hi
  have inside : i < rig.ids.length := (onStage i hi).trans_eq (List.length_map ..).symm
  rw [List.getElem?_eq_getElem inside]
  rfl

/-- Neither the order of the parts nor how often one is given shows in the heads. -/
theorem resolve_congr {spec spec' : String} {ids : List String} (has : parts spec ≠ [])
    (same : ∀ part, part ∈ parts spec ↔ part ∈ parts spec') (h : resolve rig spec = .ok ids) :
    resolve rig spec' = .ok ids := by
  have has' : parts spec' ≠ [] := by
    obtain ⟨part, hpart⟩ := List.exists_mem_of_ne_nil _ has
    exact List.ne_nil_of_mem ((same part).mp hpart)
  have stands := (exists_resolve_eq_ok_iff has).mp ⟨ids, h⟩
  obtain ⟨ids', h'⟩ :=
    (exists_resolve_eq_ok_iff has').mpr fun part hpart => stands part ((same part).mpr hpart)
  obtain ⟨places, ordered, mem_iff⟩ := exists_inStageOrder h
  obtain ⟨places', ordered', mem_iff'⟩ := exists_inStageOrder h'
  have names : ∀ i, Names rig spec i ↔ Names rig spec' i := fun i => by simp only [Names, same]
  have places_eq : places = places' := ordered.rising.eq_of_mem_iff ordered'.rising fun i =>
    (mem_iff i).trans ((names i).trans (mem_iff' i).symm)
  cases places_eq
  rw [h', ordered'.ids_unique ordered]

/-! ## Joining -/

theorem names_join {a b : String} {i : Nat} :
    Names rig (a ++ "," ++ b) i ↔ Names rig a i ∨ Names rig b i := by
  simp only [Names, parts_join, List.mem_append, or_and_right, exists_or]

/-- **Two specs joined by a comma name the heads of both.** -/
theorem resolve_join (rig : Rig α) {a b : String} (ha : parts a ≠ []) (hb : parts b ≠ []) :
    ((∃ ids, resolve rig (a ++ "," ++ b) = .ok ids) ↔
      (∃ ids, resolve rig a = .ok ids) ∧ ∃ ids, resolve rig b = .ok ids) ∧
    (∀ ids, resolve rig (a ++ "," ++ b) = .ok ids → ∃ places, InStageOrder rig places ids ∧
      ∀ i, i ∈ places ↔ Names rig a i ∨ Names rig b i) ∧
    (∀ e, resolve rig (a ++ "," ++ b) = .error e ↔ FailsFirst rig (parts a ++ parts b) e) ∧
    ∀ spec ids, (∀ part, part ∈ parts a ↔ part ∈ parts spec) →
      resolve rig a = .ok ids → resolve rig spec = .ok ids := by
  have hab : parts (a ++ "," ++ b) ≠ [] := by simp [parts_join, ha]
  refine ⟨?_, fun ids h => ?_, fun e => ?_, fun spec ids => resolve_congr ha⟩
  · rw [exists_resolve_eq_ok_iff hab, exists_resolve_eq_ok_iff ha, exists_resolve_eq_ok_iff hb,
      parts_join, List.forall_mem_append]
  · obtain ⟨places, ordered, mem_iff⟩ := exists_inStageOrder h
    exact ⟨places, ordered, fun i => (mem_iff i).trans names_join⟩
  · rw [resolve_eq_error_iff hab, parts_join]

/-- Five heads: a range from right to left beside a group and a head it meets, and two specs
that fail in their second part and in their first. -/
theorem resolve_join_of_five_heads :
    let rig : Rig ℚ := Rig.ofFixtures (["MH1", "MH2", "MH3", "MH4", "MH5"].map fun id => { id })
    parts "MH4-3" ≠ [] ∧ parts " outer ,MH3" ≠ [] ∧ parts "MH2,, band" ≠ [] ∧ parts "MH9" ≠ [] ∧
    (∃ places, InStageOrder rig places ["MH1", "MH3", "MH4", "MH5"] ∧
      ∀ i, i ∈ places ↔ Names rig "MH4-3" i ∨ Names rig " outer ,MH3" i) ∧
    resolve rig ("MH2,, band" ++ "," ++ "MH9") = .error (.unknownTarget "band") ∧
    resolve rig "MH4-3,MH4-3" = .ok ["MH3", "MH4"] := by
  intro rig
  have range : parts "MH4-3" ≠ [] := by decide +kernel
  have group : parts " outer ,MH3" ≠ [] := by decide +kernel
  have band : parts "MH2,, band" ≠ [] := by decide +kernel
  have ninth : parts "MH9" ≠ [] := by decide +kernel
  have joined := resolve_join rig range group
  have failed := resolve_join rig band ninth
  refine ⟨range, group, band, ninth, joined.2.1 _ (by decide +kernel), ?_, ?_⟩
  · exact (failed.2.2.1 _).mpr ⟨["MH2"], "band", ["MH9"], by decide +kernel,
      List.forall_mem_singleton.mpr ⟨[1], by decide +kernel⟩, by decide +kernel⟩
  · have twice : parts "MH4-3,MH4-3" = parts "MH4-3" ++ parts "MH4-3" := by decide +kernel
    exact joined.2.2.2 _ _ (by simp [twice]) (by decide +kernel)

end Target

end MovingLight
