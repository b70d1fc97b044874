import Mathlib.Data.List.Nodup
import MovingLight.Rig

/-!
# Groups — what follows from the order of the stage

Seven groups of heads follow from the order in which these hang, and each is cut out of that order
in a way of its own: halves by their length, every other head by counting, the middle by where the
halves meet, the inner heads by what the ends leave. `Rig.Arranged` says how they belong together,
for any number of heads: the first and the last cut each part all heads in two, and the halves leave
over nobody or the one head that is the middle.

They are added behind the groups that a rig configures, those whose names are not taken, so nothing
configured changes and adding them twice adds nothing (`Rig.addMissing_eq`,
`Rig.fillGroups_fillGroups`).

That no two heads have one id is asked for where a group is told by its members: a head whose id
is that of one at the end would be missing from the inner heads.
-/

namespace MovingLight

namespace Rig

/-! ## Adding groups -/

/-- A name among some groups is taken. -/
def taken (groups : List NamedGroup) (name : String) : Bool := groups.any (·.1 == name)

theorem taken_iff {groups : List NamedGroup} {name : String} :
    taken groups name = true ↔ name ∈ groups.map Prod.fst := by
  unfold taken
  rw [List.any_eq_true, List.mem_map]
  exact exists_congr fun g => and_congr_right fun _ => beq_iff_eq

theorem taken_append (groups more : List NamedGroup) (name : String) :
    taken (groups ++ more) name = (taken groups name || taken more name) := List.any_append

/-- **Groups are added behind the others**, those whose names are not taken. -/
theorem addMissing_eq {more : List NamedGroup} (distinct : (more.map Prod.fst).Nodup)
    (groups : List NamedGroup) :
    addMissing groups more = groups ++ more.filter fun g => !taken groups g.1 := by
  -- what is added is among the groups for all that follow, which have other names
  induction more generalizing groups with
  | nil => exact (List.append_nil groups).symm
  | cons g more ih =>
    obtain ⟨fresh, distinct⟩ := List.nodup_cons.mp distinct
    show addMissing (if taken groups g.1 then groups else groups ++ [g]) more = _
    cases known : taken groups g.1 with
    | true => rw [if_pos rfl, ih distinct, List.filter_cons_of_neg (by simp [known])]
    | false =>
      have others : (more.filter fun n => !taken (groups ++ [g]) n.1) =
          more.filter fun n => !taken groups n.1 := by
        refine List.filter_congr fun n hn => ?_
        have other : taken [g] n.1 = false := by
          rw [← Bool.not_eq_true, taken_iff, List.map_singleton, List.mem_singleton]
          exact fun same => fresh (same ▸ List.mem_map_of_mem hn)
        rw [taken_append, other, Bool.or_false]
      rw [if_neg Bool.false_ne_true, ih distinct, others, List.append_assoc,
        List.filter_cons_of_pos (by simp [known])]
      rfl

/-- The names of the groups that follow from the order of the heads. -/
def builtinNames : List String := ["left", "right", "odd", "even", "center", "outer", "inner"]

theorem map_fst_builtinGroups (ids : List String) :
    (builtinGroups ids).map Prod.fst = builtinNames := rfl

theorem nodup_builtinGroups (ids : List String) : ((builtinGroups ids).map Prod.fst).Nodup := by
  rw [map_fst_builtinGroups]
  decide

variable {α : Type} (r : Rig α)

theorem fillGroups_eq : r.fillGroups =
    { r with groups := r.groups ++ (builtinGroups r.ids).filter fun g => !taken r.groups g.1 } := by
  unfold fillGroups
  rw [addMissing_eq (nodup_builtinGroups r.ids)]

theorem groups_fillGroups : r.fillGroups.groups =
    r.groups ++ (builtinGroups r.ids).filter fun g => !taken r.groups g.1 := by
  rw [fillGroups_eq]

/-- A group that is configured is found as it is. -/
theorem lookup_fillGroups {name : String} {members : List String}
    (h : r.groups.lookup name = some members) : r.fillGroups.groups.lookup name = some members := by
  rw [groups_fillGroups, List.lookup_append, h]
  rfl

/-- **Adding the groups once more adds nothing.** -/
theorem fillGroups_fillGroups : r.fillGroups.fillGroups = r.fillGroups := by
  have all_taken : ∀ g ∈ builtinGroups r.ids, taken r.fillGroups.groups g.1 = true := by
    intro g hg
    rw [groups_fillGroups, taken_append]
    cases known : taken r.groups g.1 with
    | true => rfl
    | false =>
      rw [Bool.false_or, taken_iff]
      exact List.mem_map_of_mem (List.mem_filter.mpr ⟨hg, by rw [known]; rfl⟩)
  have nothing : ((builtinGroups r.ids).filter fun g => !taken r.fillGroups.groups g.1) = [] := by
    refine List.filter_eq_nil_iff.mpr fun g hg => ?_
    rw [all_taken g hg]
    exact Bool.false_ne_true
  have same : r.fillGroups.ids = r.ids := rfl
  rw [fillGroups_eq r.fillGroups, same, nothing, List.append_nil]

/-- Where no built-in name is configured all seven groups are added. -/
theorem groups_fillGroups_of_fresh
    (fresh : ∀ name ∈ builtinNames, name ∉ r.groups.map Prod.fst) :
    r.fillGroups.groups = r.groups ++ builtinGroups r.ids := by
  rw [groups_fillGroups, List.filter_eq_self.mpr fun g hg => ?_]
  have name : g.1 ∈ builtinNames := map_fst_builtinGroups r.ids ▸ List.mem_map_of_mem hg
  rw [Bool.not_eq_true', ← Bool.not_eq_true, taken_iff]
  exact fresh g.1 name

/-! ## Every other head -/

section Counting

variable {β : Type}

theorem everyOther_cons (x : β) (xs : List β) : everyOther (x :: xs) = x :: everyOther xs.tail := by
  cases xs <;> rfl

theorem everyOther_sublist (xs : List β) : (everyOther xs).Sublist xs := by
  induction xs using everyOther.induct with
  | case1 => exact List.Sublist.refl []
  | case2 x => exact List.Sublist.refl [x]
  | case3 x y rest ih => exact (ih.cons y).cons_cons x

/-- **Every other head from the first on and every other from the second on are all heads.** -/
theorem everyOther_perm (xs : List β) : (everyOther xs ++ everyOther xs.tail).Perm xs := by
  induction xs with
  | nil => exact List.Perm.refl []
  | cons x xs ih =>
    rw [everyOther_cons, List.tail_cons, List.cons_append]
    exact (List.perm_append_comm.trans ih).cons x

end Counting

/-! ## Parts of a stage -/

/-- Two groups part the heads between them: everyone is in one of them, and nobody in both. -/
structure Parted (ids xs ys : List String) : Prop where
  perm : (xs ++ ys).Perm ids
  disjoint : xs.Disjoint ys

variable {ids : List String}

theorem parted_of_perm {xs ys : List String} (distinct : ids.Nodup)
    (perm : (xs ++ ys).Perm ids) : Parted ids xs ys :=
  ⟨perm, List.disjoint_of_nodup_append (perm.nodup_iff.mpr distinct)⟩

theorem ends_sublist (ids : List String) : (ends ids).Sublist ids := by
  cases ids with
  | nil => exact List.Sublist.refl []
  | cons id rest =>
    show (id :: rest.getLast?.toList).Sublist (id :: rest)
    refine List.Sublist.cons_cons id ?_
    cases last : rest.getLast? with
    | none => exact List.nil_sublist rest
    | some x => exact List.singleton_sublist.mpr (List.mem_of_getLast? last)

/-- **The ends and what they leave are all heads.** -/
theorem parted_ends (distinct : ids.Nodup) :
    Parted ids (ends ids) (ids.filter fun id => !(ends ids).contains id) := by
  have at_ends : (ids.filter fun id => (ends ids).contains id).Perm (ends ids) := by
    refine (List.perm_ext_iff_of_nodup (distinct.filter _)
      (distinct.sublist (ends_sublist ids))).mpr fun id => ?_
    rw [List.mem_filter, List.contains_iff_mem]
    exact and_iff_right_of_imp fun h => (ends_sublist ids).subset h
  refine parted_of_perm distinct ((at_ends.symm.append_right _).trans ?_)
  exact List.filter_append_perm _ ids

theorem length_leftHalf (ids : List String) : (leftHalf ids).length = ids.length / 2 := by
  unfold leftHalf
  rw [List.length_take]
  omega

theorem length_rightHalf (ids : List String) : (rightHalf ids).length = ids.length / 2 := by
  unfold rightHalf
  rw [List.length_drop]
  omega

/-- Everyone in the left half hangs before everyone in the right half. -/
theorem idxOf_lt_of_halves (distinct : ids.Nodup) {a b : String} (ha : a ∈ leftHalf ids)
    (hb : b ∈ rightHalf ids) : ids.idxOf a < ids.idxOf b := by
  obtain ⟨i, hi, rfl⟩ := List.mem_take_iff_getElem.mp ha
  obtain ⟨j, hj, rfl⟩ := List.mem_drop_iff_getElem.mp hb
  rw [distinct.idxOf_getElem, distinct.idxOf_getElem]
  omega

/-- **Two halves of an even number of heads are all of them.** -/
theorem halves_of_even (even : ids.length % 2 = 0) : leftHalf ids ++ rightHalf ids = ids := by
  have meet : ids.length - ids.length / 2 = ids.length / 2 := by omega
  unfold leftHalf rightHalf
  rw [meet, List.take_append_drop]

/-- **The halves of an odd number of heads leave over the one in the middle.** -/
theorem exists_middle_of_odd (odd : ids.length % 2 = 1) :
    ∃ id, middle ids = [id] ∧ leftHalf ids ++ id :: rightHalf ids = ids := by
  have inside : ids.length / 2 < ids.length := by omega
  have after : ids.length - ids.length / 2 = ids.length / 2 + 1 := by omega
  refine ⟨ids[ids.length / 2], ?_, ?_⟩
  · unfold middle
    rw [if_pos odd, List.drop_eq_getElem_cons inside]
    rfl
  · unfold leftHalf rightHalf
    rw [after, ← List.drop_eq_getElem_cons inside, List.take_append_drop]

/-- **The middle of an even number of heads is where the halves meet.** -/
theorem exists_middle_of_even (even : ids.length % 2 = 0) (several : 2 ≤ ids.length) :
    ∃ l r, (leftHalf ids).getLast? = some l ∧ (rightHalf ids).head? = some r ∧
      middle ids = [l, r] := by
  have left_ne : leftHalf ids ≠ [] := by
    rw [← List.length_pos_iff, length_leftHalf]
    omega
  have right_ne : rightHalf ids ≠ [] := by
    rw [← List.length_pos_iff, length_rightHalf]
    omega
  obtain ⟨before, l, left⟩ := List.eq_nil_or_concat (leftHalf ids) |>.resolve_left left_ne
  obtain ⟨r, behind, right⟩ := List.exists_cons_of_ne_nil right_ne
  have all := halves_of_even even
  have count := length_leftHalf ids
  rw [left, List.concat_eq_append, List.length_append, List.length_singleton] at count
  rw [left, right, List.concat_eq_append, List.append_assoc] at all
  refine ⟨l, r, ?_, ?_, ?_⟩
  · rw [left, List.concat_eq_append, List.getLast?_concat]
  · rw [right, List.head?_cons]
  · have start : ids.length / 2 - 1 = before.length := by omega
    unfold middle
    rw [if_neg (by omega), start, ← all, List.drop_left]
    rfl

theorem middle_sublist (ids : List String) : (middle ids).Sublist ids := by
  unfold middle
  dsimp only
  split
  · exact (List.take_sublist _ _).trans (List.drop_sublist _ _)
  · exact (List.take_sublist _ _).trans (List.drop_sublist _ _)

/-! ## All seven -/

/-- **How the groups of a stage belong together**, whatever the number of heads. -/
structure Arranged (ids left right odd even center outer inner : List String) : Prop where
  counted : Parted ids odd even
  surrounded : Parted ids outer inner
  length_left : left.length = ids.length / 2
  length_right : right.length = ids.length / 2
  disjoint : left.Disjoint right
  before : ∀ a ∈ left, ∀ b ∈ right, ids.idxOf a < ids.idxOf b
  /-- Of an odd number one head is in neither half, and is the middle. -/
  between : ids.length % 2 = 1 → ∃ id, center = [id] ∧ left ++ id :: right = ids
  halves : ids.length % 2 = 0 → left ++ right = ids
  /-- Of an even number the middle is the last on the left and the first on the right. -/
  meeting : ids.length % 2 = 0 → 2 ≤ ids.length →
    ∃ l r, left.getLast? = some l ∧ right.head? = some r ∧ center = [l, r]
  /-- Groups have heads of the rig for members, in the order of the stage. -/
  inOrder : ∀ group ∈ [left, right, odd, even, center, outer, inner], group.Sublist ids

theorem arranged (distinct : ids.Nodup) :
    Arranged ids (leftHalf ids) (rightHalf ids) (everyOther ids) (everyOther ids.tail)
      (middle ids) (ends ids) (ids.filter fun id => !(ends ids).contains id) where
  counted := parted_of_perm distinct (everyOther_perm ids)
  surrounded := parted_ends distinct
  length_left := length_leftHalf ids
  length_right := length_rightHalf ids
  disjoint _ ha hb := Nat.lt_irrefl _ (idxOf_lt_of_halves distinct ha hb)
  before _ ha _ hb := idxOf_lt_of_halves distinct ha hb
  between := exists_middle_of_odd
  halves := halves_of_even
  meeting := exists_middle_of_even
  inOrder := by
    simp only [List.mem_cons, List.not_mem_nil, or_false, forall_eq_or_imp, forall_eq]
    exact ⟨List.take_sublist _ _, List.drop_sublist _ _, everyOther_sublist ids,
      (everyOther_sublist _).trans (List.tail_sublist ids), middle_sublist ids, ends_sublist ids,
      List.filter_sublist⟩

/-- **A rig is given the groups of its stage.** Configured groups stay where they are and are found
as before, the heads stay the same, and doing it again changes nothing. Where none of the seven
names is configured all seven groups are added, and belong together as those of a stage do. -/
theorem fillGroups_arranges (distinct : r.ids.Nodup) :
    r.groups <+: r.fillGroups.groups ∧
    (∀ name members, r.groups.lookup name = some members →
      r.fillGroups.groups.lookup name = some members) ∧
    r.fillGroups.fixtures = r.fixtures ∧
    r.fillGroups.fillGroups = r.fillGroups ∧
    ((∀ name ∈ builtinNames, name ∉ r.groups.map Prod.fst) →
      ∃ left right odd even center outer inner,
        r.fillGroups.groups = r.groups ++ [("left", left), ("right", right), ("odd", odd),
          ("even", even), ("center", center), ("outer", outer), ("inner", inner)] ∧
        Arranged r.ids left right odd even center outer inner) := by
  refine ⟨?_, fun _ _ => lookup_fillGroups r, rfl, fillGroups_fillGroups r, fun fresh => ?_⟩
  · rw [groups_fillGroups]
    exact List.prefix_append _ _
  · exact ⟨_, _, _, _, _, _, _, groups_fillGroups_of_fresh r fresh, arranged distinct⟩

/-- Five heads, two of which are grouped by a rig. -/
def fiveHeads : Rig Float32 :=
  { fixtures := [{ id := "MH1" }, { id := "MH2" }, { id := "MH3" }, { id := "MH4" },
      { id := "MH5" }]
    groups := [("stairs", ["MH4", "MH2"])] }

/-- Of five heads the third is the middle, and it is in neither half. -/
theorem fillGroups_arranges_of_five_heads :
    fiveHeads.ids.Nodup ∧ (∀ name ∈ builtinNames, name ∉ fiveHeads.groups.map Prod.fst) ∧
    fiveHeads.groups <+: fiveHeads.fillGroups.groups ∧
    fiveHeads.fillGroups.fillGroups = fiveHeads.fillGroups ∧
    ∃ left right odd even center outer inner,
      fiveHeads.fillGroups.groups = fiveHeads.groups ++ [("left", left), ("right", right),
        ("odd", odd), ("even", even), ("center", center), ("outer", outer), ("inner", inner)] ∧
      Arranged fiveHeads.ids left right odd even center outer inner ∧ center = ["MH3"] := by
  have distinct : fiveHeads.ids.Nodup := by decide
  have fresh : ∀ name ∈ builtinNames, name ∉ fiveHeads.groups.map Prod.fst := by decide
  obtain ⟨before, -, -, again, added⟩ := fillGroups_arranges fiveHeads distinct
  obtain ⟨left, right, odd, even, center, outer, inner, groups, arranged⟩ := added fresh
  obtain ⟨third, alone, all⟩ := arranged.between (by decide)
  have middle : third = "MH3" := by
    have at_two : (left ++ third :: right)[left.length]? = some third := by
      rw [List.getElem?_append_right (Nat.le_refl _), Nat.sub_self, List.getElem?_cons_zero]
    rw [all, arranged.length_left] at at_two
    exact (Option.some.inj at_two).symm
  exact ⟨distinct, fresh, before, again, left, right, odd, even, center, outer, inner, groups,
    arranged, by rw [alone, middle]⟩

end Rig

end MovingLight
