import MovingLight.Proofs.Formation.Frame
import MovingLight.Proofs.Random

/-!
# Scatter — random places that can be had again

A scatter is random in looks only. Its seed is a number that a planner gives it or else a hash of
who is selected, taken of their ids in order, so that it does not matter in which order they are
named (`Formation.distribute_scatter_perm`). The place of a head is drawn with the seed and
the number of its slot and with nothing else: where the seed is given, heads that have the same slot
have the same place in any two selections, and more heads leave the places of the others as they
are (`Formation.distribute_scatter_prefix`).

What is drawn is a part of a size to either side, of at most all of it. Multiplying by the
size and adding to nothing keep this, rounded or not, so no head ends up further off than
the size says (`Formation.abs_place_scatter_le`).
-/

namespace MovingLight

open Scalar

/-! ## A part of a size -/

namespace Scalar

/-- **Nothing and a part of a size come to at most that size.** -/
theorem abs_add_mul_le {α : Type} [Scalar α] [MonotoneLaws α] [StageLaws α] [DrawLaws α]
    {z u c : α} (null : Null z) (part : -1 ≤ u ∧ u ≤ 1) (finite : isFinite c = true)
    (nonneg : 0 ≤ c) : abs (z + u * c) ≤ c := by
  have le {x y w : α} (h : x ≤ y) (h' : y ≤ w) : x ≤ w := MonotoneLaws.le_trans x y w h h'
  have finite_u := MonotoneLaws.isFinite_of_mem _ _ _ Slot.isFinite_neg_one Slot.isFinite_one
    part.1 part.2
  have finite_part := MonotoneLaws.isFinite_mul u c part.1 part.2 finite
  have lower : -c ≤ u * c :=
    le (DrawLaws.neg_one_mul c finite).2
      (MonotoneLaws.mul_le_mul_right _ _ c part.1 Slot.isFinite_neg_one finite_u finite nonneg)
  have upper : u * c ≤ c :=
    le (MonotoneLaws.mul_le_mul_right _ _ c part.2 finite_u Slot.isFinite_one finite nonneg)
      (DrawLaws.one_mul c finite).1
  -- adding to nothing keeps a number, but may change the sign of a zero
  obtain ⟨added, kept⟩ := DrawLaws.zero_add _ finite_part
  refine MonotoneLaws.abs_le _ _ ?_ ?_
  · exact le lower (le kept (MonotoneLaws.add_le_add_right _ _ _ null.2 finite_part))
  · exact le (le (MonotoneLaws.add_le_add_right _ _ _ null.1 finite_part) added) upper

end Scalar

namespace Formation

variable {α : Type} [Scalar α] (p : Params) (base : Movement α) {ids ids' : List String}

/-! ## Seeds -/

/-- The order ids are sorted in for a hash. -/
theorem not_decide_lt_iff {a b : String} : (!decide (b < a)) = true ↔ a ≤ b := by
  rw [Bool.not_eq_true', decide_eq_false_iff_not, String.not_lt]

theorem sorted_ids_pairwise (ids : List String) :
    (ids.mergeSort fun a b => !(b < a)).Pairwise (· ≤ ·) := by
  have sorted : (ids.mergeSort fun a b => !(b < a)).Pairwise
      fun a b => (!decide (b < a)) = true := by
    refine List.pairwise_mergeSort (fun a b c ab bc => ?_) (fun a b => ?_) ids
    · rw [not_decide_lt_iff] at ab bc ⊢
      exact String.le_trans ab bc
    · rw [Bool.or_eq_true, not_decide_lt_iff, not_decide_lt_iff]
      exact String.le_total a b
  exact sorted.imp not_decide_lt_iff.mp

theorem sorted_ids_eq (same : ids.Perm ids') :
    (ids.mergeSort fun a b => !(b < a)) = ids'.mergeSort fun a b => !(b < a) :=
  List.Perm.eq_of_pairwise (fun _ _ _ _ => String.le_antisymm) (sorted_ids_pairwise ids)
    (sorted_ids_pairwise ids')
    ((List.mergeSort_perm ids _).trans (same.trans (List.mergeSort_perm ids' _).symm))

/-- **The order in which heads are named does not show in the seed.** -/
theorem seedOf_perm (same : ids.Perm ids') : seedOf ids = seedOf ids' := by
  unfold seedOf
  rw [sorted_ids_eq same]

/-- A seed that is given does not depend on who is selected. -/
theorem seed_eq_seed {p : Params} (h : (p.whole? "seed").isSome = true) (ids ids' : List String) :
    seed p ids = seed p ids' := by
  obtain ⟨n, given⟩ := Option.isSome_iff_exists.mp h
  unfold seed
  rw [given]

/-! ## Places -/

/-- The place of a head is drawn with the seed and the number of its slot. -/
theorem placeScatter_congr (seed : UInt64) {s s' : Slot α} (same : s.index = s'.index) :
    placeScatter p seed base s = placeScatter p seed base s' := by
  unfold placeScatter
  rw [same]

theorem distribute_scatter_perm (same : ids.Perm ids') :
    scatter.distribute p base ids = scatter.distribute p base ids' := by
  have seeds : seed p ids = seed p ids' := by
    unfold seed
    rw [seedOf_perm same]
  unfold distribute
  rw [seeds, same.length_eq]

/-- **Where the seed is given, more heads only come behind.** -/
theorem distribute_scatter_prefix (given : (p.whole? "seed").isSome = true)
    (fewer : ids.length ≤ ids'.length) :
    scatter.distribute p base ids <+: scatter.distribute p base ids' := by
  have counts : (scatter.distribute p base ids).length ≤
      (scatter.distribute p base ids').length := by
    rwa [length_distribute, length_distribute]
  refine List.prefix_iff_getElem.mpr ⟨counts, fun i _ => ?_⟩
  rw [getElem_distribute, getElem_distribute, seed_eq_seed given ids ids']
  exact placeScatter_congr p base _ rfl

section Sizes

variable [OrderLaws α] [MonotoneLaws α] [StageLaws α] [DrawLaws α]

/-- Something drawn by a parameter is at most what the parameter says. -/
theorem abs_add_draw_le (key : String) {n : Nat} (h : n < 256) {z : α} (null : Null z)
    (word : UInt32) :
    Scalar.abs (z + draw (-1) 1 word * Scalar.abs (p.number key (OfNat.ofNat n))) ≤
      Scalar.abs (p.number key (OfNat.ofNat n)) := by
  have finite : isFinite (p.number key (OfNat.ofNat n) : α) = true := isFinite_number p key h
  exact abs_add_mul_le null (DrawLaws.draw_mem word) (DrawLaws.isFinite_abs _ finite)
    (MonotoneLaws.abs_nonneg _ (OrderLaws.le_self_of_isFinite _ finite))

/-- **Nobody is scattered further off than the sizes say**, on an axis on which the movement itself
is not off. -/
theorem abs_place_scatter_le (seed : UInt64) (s : Slot α) :
    (Null base.panOffsetDeg → Scalar.abs (placeScatter p seed base s).panOffsetDeg ≤
      Scalar.abs (p.number "max_pan_deg" 30)) ∧
    (Null base.tiltOffsetDeg → Scalar.abs (placeScatter p seed base s).tiltOffsetDeg ≤
      Scalar.abs (p.number "max_tilt_deg" 15)) :=
  ⟨fun null => abs_add_draw_le p "max_pan_deg" (by norm_num) null _,
    fun null => abs_add_draw_le p "max_tilt_deg" (by norm_num) null _⟩

end Sizes

/-! ## A whole selection -/

/-- **A scatter goes by who is selected and stays within its sizes**, in single precision and for
any parameters. Selections of the same heads get the same movements slot by slot, in whatever order
the heads are named. Where a seed is given, so do any two selections of one size, and a larger
one begins with the movements of a smaller one. A movement that is not itself off gets offsets up
to the sizes that the parameters say, of either sign. -/
theorem distribute_scatters (p : Params) (base : Movement Float32) (ids ids' : List String) :
    (ids.Perm ids' → scatter.distribute p base ids = scatter.distribute p base ids') ∧
    ((p.whole? "seed").isSome = true →
      (ids.length = ids'.length →
        scatter.distribute p base ids = scatter.distribute p base ids') ∧
      (ids.length ≤ ids'.length →
        scatter.distribute p base ids <+: scatter.distribute p base ids')) ∧
    ∀ m ∈ scatter.distribute p base ids,
      (Null base.panOffsetDeg →
        Scalar.abs m.panOffsetDeg ≤ Scalar.abs (p.number "max_pan_deg" 30)) ∧
      (Null base.tiltOffsetDeg →
        Scalar.abs m.tiltOffsetDeg ≤ Scalar.abs (p.number "max_tilt_deg" 15)) := by
  refine ⟨distribute_scatter_perm p base, fun given => ⟨fun size => ?_,
    distribute_scatter_prefix p base given⟩, fun m hm => ?_⟩
  · have behind := distribute_scatter_prefix p base given size.le
    exact behind.eq_of_length (by rw [length_distribute, length_distribute, size])
  · obtain ⟨s, -, rfl⟩ := List.mem_map.mp hm
    exact abs_place_scatter_le p base _ s

/-- Two heads named in either order, and three more behind them, scattered by a negative size. -/
theorem distribute_scatters_of_negative_size :
    let p : Params := [("max_pan_deg", .number (some (.whole (-20)))),
      ("seed", .string (some " 7 "))]
    let base : Movement Float32 := .hold
    let ids := ["MH2", "MH1"]
    let all := ["MH1", "MH2", "MH3", "MH4", "MH5"]
    (ids.Perm ["MH1", "MH2"] ∧
      scatter.distribute p base ids = scatter.distribute p base ["MH1", "MH2"]) ∧
    ((p.whole? "seed").isSome = true ∧ ids.length ≤ all.length ∧
      scatter.distribute p base ids <+: scatter.distribute p base all) ∧
    Null base.panOffsetDeg ∧ ∀ m ∈ scatter.distribute p base ids,
      Scalar.abs m.panOffsetDeg ≤ Scalar.abs (p.number "max_pan_deg" 30) := by
  intro p base ids all
  have swapped : ids.Perm ["MH1", "MH2"] := .swap ..
  have given : (p.whole? "seed").isSome = true := by decide
  have fewer : ids.length ≤ all.length := by decide
  have null : Null base.panOffsetDeg := null_zero
  obtain ⟨same, -, -⟩ := distribute_scatters p base ids ["MH1", "MH2"]
  obtain ⟨-, behind, within⟩ := distribute_scatters p base ids all
  exact ⟨⟨swapped, same swapped⟩, ⟨given, fewer, (behind given).2 fewer⟩, null,
    fun m hm => (within m hm).1 null⟩

end Formation

end MovingLight
