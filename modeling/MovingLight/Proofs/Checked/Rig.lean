import Mathlib.Data.List.Destutter
import Mathlib.Data.List.Sort
import MovingLight.Proofs.Checked
import MovingLight.Rig.Target

/-!
# Groups and targets, checked

The halves, the middle and the ends of the stage are taken from the list of ids by their
places, which follow from half the number of heads. A stage of no heads has no middle and
no ends, and a stage of one has one end.

The places a target names are collected part by part, put in order and made distinct, and
then looked up among the heads. A part names places in three ways: the place of a head
found by its id, a place counted from one and not beyond the last, and the places between
two such. All of them are places of heads (`Target.lt_of_resolvePart`).
-/

namespace MovingLight

variable {α : Type}

namespace Rig

/-! ## Groups -/

/-- The middle of the stage: one head, or two where the number is even. -/
def middleChecked (ids : List String) : Checked (List String) := do
  let n := ids.length
  let half ← Checked.quotient n 2
  if n = 0 then return []
  else if (← Checked.remainder n 2) = 1 then return [← Checked.item ids half]
  else Checked.slice ids (← Checked.back half 1) (half + 1)

/-- Both ends of the stage. -/
def endsChecked (ids : List String) : Checked (List String) := do
  match ids.length with
  | 0 => return []
  | 1 => return ids
  | n => return [← Checked.item ids 0, ← Checked.item ids (← Checked.back n 1)]

/-- The groups that follow from the order of the heads. -/
def builtinGroupsChecked (ids : List String) : Checked (List NamedGroup) := do
  let n := ids.length
  let half ← Checked.quotient n 2
  let left ← Checked.slice ids 0 half
  let right ← Checked.slice ids (← Checked.back n half) n
  let center ← middleChecked ids
  let outer ← endsChecked ids
  return [("left", left),
    ("right", right),
    ("odd", everyOther ids),
    ("even", everyOther ids.tail),
    ("center", center),
    ("outer", outer),
    ("inner", ids.filter fun id => !outer.contains id)]

/-- The rig with its built-in groups. -/
def fillGroupsChecked (r : Rig α) : Checked (Rig α) := do
  return { r with groups := addMissing r.groups (← builtinGroupsChecked r.ids) }

theorem middleChecked_ok (ids : List String) : middleChecked ids = .ok (middle ids) := by
  rw [middleChecked, middle, Checked.quotient_two, Checked.remainder_two]
  simp only [Checked.ok_bind]
  by_cases empty : ids.length = 0
  · rw [if_pos empty, List.length_eq_zero_iff.mp empty]
    rfl
  · rw [if_neg empty]
    by_cases odd : ids.length % 2 = 1
    · have inside : ids.length / 2 < ids.length := by omega
      rw [if_pos odd, if_pos odd, Checked.item_ok (List.getElem?_eq_getElem inside),
        List.drop_eq_getElem_cons inside]
      rfl
    · have before : ids.length / 2 = ids.length / 2 - 1 + 1 := by omega
      rw [if_neg odd, if_neg odd, Checked.back_ok before, Checked.ok_bind,
        Checked.slice_ok (by omega) (by omega)]
      rw [show ids.length / 2 + 1 - (ids.length / 2 - 1) = 2 by omega]

theorem endsChecked_ok (ids : List String) : endsChecked ids = .ok (ends ids) := by
  match ids with
  | [] => rfl
  | [id] => rfl
  | first :: second :: rest =>
    have last : (second :: rest).getLast? = some ((second :: rest).getLast (by simp)) :=
      List.getLast?_eq_some_getLast _
    have found : (first :: second :: rest)[rest.length + 1]? = (second :: rest).getLast? := by
      rw [List.getLast?_eq_getElem?]
      rfl
    have place : Checked.back (rest.length + 2) 1 = .ok (rest.length + 1) := Checked.back_ok rfl
    simp only [endsChecked, List.length_cons, place, Checked.item_cons_zero,
      Checked.item_ok (found.trans last), Checked.ok_bind, ends, List.tail_cons, last]
    rfl

theorem builtinGroupsChecked_ok (ids : List String) :
    builtinGroupsChecked ids = .ok (builtinGroups ids) := by
  have half : ids.length / 2 ≤ ids.length := Nat.div_le_self _ 2
  have rest : Checked.back ids.length (ids.length / 2) = .ok (ids.length - ids.length / 2) :=
    Checked.back_ok (by omega)
  have right : (ids.drop (ids.length - ids.length / 2)).take
      (ids.length - (ids.length - ids.length / 2)) = rightHalf ids :=
    List.take_of_length_le (by rw [List.length_drop])
  rw [builtinGroupsChecked, Checked.quotient_two, Checked.ok_bind,
    Checked.slice_ok (Nat.zero_le _) half, Checked.ok_bind, rest, Checked.ok_bind,
    Checked.slice_ok (Nat.sub_le _ _) le_rfl, right, middleChecked_ok, endsChecked_ok]
  rfl

theorem fillGroupsChecked_ok (r : Rig α) : r.fillGroupsChecked = .ok r.fillGroups := by
  rw [fillGroupsChecked, builtinGroupsChecked_ok]
  rfl

end Rig

/-! ## Targets -/

namespace Target

/-- The places of some heads in order, each once. -/
def orderedChecked (rig : Rig α) (places : List Nat) : Checked (List String) :=
  ((places.mergeSort (· ≤ ·)).destutter (· ≠ ·)).mapM fun i => do
    return (← Checked.item rig.fixtures i).id

/-- The ids of the heads a spec names, in stage order. -/
def resolveChecked (rig : Rig α) (spec : String) : Checked (Except ShowError (List String)) :=
  if Text.trim spec = "" then .ok (.error (.invalidTarget (Text.trim spec) "empty target"))
  else
    match (parts spec).mapM (resolvePart rig) with
    | .error e => .ok (.error e)
    | .ok named => do return .ok (← orderedChecked rig named.flatten)

theorem lt_of_index? {rig : Rig α} {id : String} {i : Nat} (h : rig.index? id = some i) :
    i < rig.size := by
  rw [Rig.index?, List.findIdx?_eq_some_iff_getElem] at h
  exact h.1

theorem lt_of_indexOf {rig : Rig α} {id : String} {i : Nat} (h : indexOf rig id = .ok i) :
    i < rig.size := by
  unfold indexOf at h
  split at h
  case h_1 found =>
    cases h
    exact lt_of_index? found
  case h_2 => cases h

/-- A place counted from one is that of a head where it is not beyond the last. -/
theorem lt_of_endpoint? {rig : Rig α} {token : String} {i : Nat}
    (h : endpoint? rig token = some i) : i < rig.size := by
  unfold endpoint? at h
  split at h
  case h_1 found =>
    cases h
    exact lt_of_index? found
  case h_2 =>
    obtain ⟨n, counted, rfl⟩ := Option.map_eq_some_iff.mp h
    have bounds := Option.filter_eq_some_iff.mp counted
    simp at bounds
    omega

theorem lt_of_endpoint {rig : Rig α} {token : String} {i : Nat} (h : endpoint rig token = .ok i) :
    i < rig.size := by
  unfold endpoint at h
  split at h
  case h_1 found =>
    cases h
    exact lt_of_endpoint? found
  case h_2 => cases h

/-- **A part of a target names places of heads only.** -/
theorem lt_of_resolvePart {rig : Rig α} {part : String} {places : List Nat}
    (h : resolvePart rig part = .ok places) : ∀ i ∈ places, i < rig.size := by
  unfold resolvePart at h
  split at h
  case isTrue =>
    cases h
    exact fun i => List.mem_range.mp
  case isFalse =>
    split at h
    case h_1 found =>
      cases h
      exact List.forall_mem_singleton.mpr (lt_of_index? found)
    case h_2 =>
      split at h
      case h_1 =>
        intro i hi
        obtain ⟨id, -, found⟩ := Checked.exists_of_mem_mapM h i hi
        exact lt_of_indexOf found
      case h_2 =>
        split at h
        case h_1 a b _ =>
          obtain ⟨first, hfirst, h⟩ := Checked.exists_of_bind_eq_ok h
          obtain ⟨last, hlast, h⟩ := Checked.exists_of_bind_eq_ok h
          cases h
          have hfirst := lt_of_endpoint hfirst
          have hlast := lt_of_endpoint hlast
          intro i hi
          obtain ⟨steps, hsteps, rfl⟩ := List.mem_map.mp hi
          rw [List.mem_range] at hsteps
          omega
        case h_2 => cases h

/-- Places put in order and made distinct are those among all places. -/
theorem ordered_eq {n : Nat} {places : List Nat} (h : ∀ i ∈ places, i < n) :
    (places.mergeSort (· ≤ ·)).destutter (· ≠ ·) = (List.range n).filter places.contains := by
  have sorted : (places.mergeSort (· ≤ ·)).Pairwise (· ≤ ·) :=
    List.pairwise_mergeSort' (· ≤ ·) places
  rw [sorted.destutter_eq_dedup]
  have strict : ((places.mergeSort (· ≤ ·)).dedup).Pairwise (· < ·) :=
    ((sorted.sublist (List.dedup_sublist _)).and (List.nodup_dedup _)).imp
      fun ⟨le, ne⟩ => lt_of_le_of_ne le ne
  refine strict.eq_of_mem_iff (List.pairwise_lt_range.filter _) fun i => ?_
  rw [List.mem_dedup, List.mem_mergeSort, List.mem_filter, List.mem_range, List.contains_iff_mem]
  exact ⟨fun hi => ⟨h i hi, hi⟩, fun hi => hi.2⟩

/-- Places of heads are looked up one by one. -/
theorem mapM_id_ok (rig : Rig α) {places : List Nat} (h : ∀ i ∈ places, i < rig.size) :
    (places.mapM fun i => do return (← Checked.item rig.fixtures i).id) =
      .ok (places.filterMap fun i => rig.ids[i]?) := by
  induction places with
  | nil => rfl
  | cons i rest ih =>
    obtain ⟨here, later⟩ := List.forall_mem_cons.mp h
    have found : rig.fixtures[i]? = some rig.fixtures[i] := List.getElem?_eq_getElem here
    have id : rig.ids[i]? = some rig.fixtures[i].id := by
      rw [Rig.ids, List.getElem?_map, found]
      rfl
    rw [List.mapM_cons, Checked.item_ok found, ih later, List.filterMap_cons_some id]
    rfl

theorem orderedChecked_ok (rig : Rig α) {places : List Nat} (h : ∀ i ∈ places, i < rig.size) :
    orderedChecked rig places =
      .ok (((List.range rig.size).filter places.contains).filterMap fun i => rig.ids[i]?) := by
  rw [orderedChecked, ordered_eq h]
  exact mapM_id_ok rig fun i hi => List.mem_range.mp (List.mem_of_mem_filter hi)

@[simp]
theorem resolveChecked_ok (rig : Rig α) (spec : String) :
    resolveChecked rig spec = .ok (resolve rig spec) := by
  rw [resolveChecked, resolve, resolvePlaces]
  split
  case isTrue => rfl
  case isFalse =>
    cases found : (parts spec).mapM (resolvePart rig) with
    | error e => rfl
    | ok named =>
      have places : ∀ i ∈ named.flatten, i < rig.size := by
        intro i hi
        obtain ⟨part, hpart, hi⟩ := List.mem_flatten.mp hi
        obtain ⟨text, -, named⟩ := Checked.exists_of_mem_mapM found part hpart
        exact lt_of_resolvePart named i hi
      have gathered : named.flatten.contains = fun i => named.any (·.contains i) := by
        funext i
        rw [Bool.eq_iff_iff]
        simp
      simp only [orderedChecked_ok rig places, gathered]
      rfl

end Target

end MovingLight
