import MovingLight.Proofs.Scalar.Amid
import MovingLight.Rig.Slot

/-!
# Slots — between the two edges of the stage

Of two heads the left one stands at zero and the right one at one, and every other slot of
every selection lies between those (`Slot.amid_position`), as far to a side as they
(`Slot.amid_signedDistance`) or nearer the middle. Of three heads the middle one is not off
the middle at all. The numbers that this takes are few, and both readings agree on them:
`Scalar.StageLaws`.

A selection of more heads than single precision can count has slots at indefinite positions,
which are between anything.
-/

namespace MovingLight

/-- **The few numbers a stage is measured with.** -/
class Scalar.StageLaws (α : Type) [Scalar α] : Prop where
  isFinite_literal : ∀ n : Nat, n < 256 → isFinite (OfNat.ofNat n : α) = true
  neg_one_le_zero : (-1 : α) ≤ 0
  isFinite_middle : isFinite (0.5 : α) = true
  middle_mem : (0 : α) ≤ 0.5 ∧ (0.5 : α) ≤ 1
  /-- Of two heads one stands at either edge, of three one in the middle as well. -/
  evenTime_edges : evenTime 0 2 = (0 : α) ∧ evenTime 1 2 = (1 : α) ∧ evenTime 0 3 = (0 : α) ∧
    evenTime 1 3 = (0.5 : α)
  isFinite_from_middle : isFinite (0 - 0.5 : α) = true ∧ isFinite (1 - 0.5 : α) = true
  from_middle : (0 - 0.5 : α) * 2 = -1 ∧ (1 - 0.5 : α) * 2 = 1 ∧ (0.5 - 0.5 : α) * 2 = 0
  abs_edges : abs (-1 : α) = 1 ∧ abs (1 : α) = 1 ∧ abs (0 : α) = 0
  /-- Both edges are on a side. -/
  on_side : ¬(1 : α) < 0.000001
  signum_edges : signum (-1 : α) = -1 ∧ signum (1 : α) = 1
  signum_cases : ∀ x : α, signum x ≤ signum x → signum x = -1 ∨ signum x = 1

namespace Scalar

/-- Nothing that a reading leaves open goes into these numbers, so they are computed in a reading
that can be. -/
theorem stageLaws_parabolic :
    letI := ExactReading.parabolic
    StageLaws ℚ := by
  let reading := ExactReading.parabolic
  exact {
    isFinite_literal := fun _ _ => rfl
    neg_one_le_zero := by decide +kernel
    isFinite_middle := rfl
    middle_mem := by decide +kernel
    evenTime_edges := by decide +kernel
    isFinite_from_middle := ⟨rfl, rfl⟩
    from_middle := by decide +kernel
    abs_edges := by decide +kernel
    on_side := by decide +kernel
    signum_edges := by decide +kernel
    signum_cases := fun x _ => by
      show (if x < 0 then (-1 : ℚ) else 1) = -1 ∨ (if x < 0 then (-1 : ℚ) else 1) = 1
      exact ite_eq_or_eq _ _ _ }

instance [ExactReading] : StageLaws ℚ := { stageLaws_parabolic with }

instance : StageLaws Float32 where
  isFinite_literal n h := show (n : Float32).isFinite = true from Single.isFinite_natCast h
  neg_one_le_zero := by decide
  isFinite_middle := by decide
  middle_mem := by decide
  evenTime_edges := by decide +kernel
  isFinite_from_middle := by decide
  from_middle := by decide +kernel
  abs_edges := by decide +kernel
  on_side := by decide
  signum_edges := by decide +kernel
  signum_cases x h := by
    have definite : x.isNaN = true → ¬Scalar.signum x ≤ Scalar.signum x := by
      intro nan
      show ¬(if x.isNaN then x else _) ≤ (if x.isNaN then x else _)
      rw [if_pos nan, Single.le_self_iff]
      exact Bool.eq_false_iff.not.mpr (not_not.mpr nan)
    show (if x.isNaN then x else if x.toBits < 0x80000000 then 1 else -1) = -1 ∨
      (if x.isNaN then x else if x.toBits < 0x80000000 then 1 else -1) = 1
    rw [if_neg fun nan => definite nan h]
    exact (ite_eq_or_eq _ _ _).symm

end Scalar

namespace Slot

open Scalar

variable {α : Type} [Scalar α] {n i : Nat}

section Edges

variable [StageLaws α]

theorem isFinite_zero : isFinite (0 : α) = true := StageLaws.isFinite_literal 0 (by norm_num)

theorem isFinite_one : isFinite (1 : α) = true := StageLaws.isFinite_literal 1 (by norm_num)

/-- The left one of two heads. -/
theorem ofIndex_left : (ofIndex 2 0 : Slot α) = ⟨0, 2, 0, -1⟩ := by
  unfold ofIndex
  simp only [show ¬2 ≤ 1 by decide, if_false, StageLaws.evenTime_edges, StageLaws.from_middle]

/-- The right one of two heads. -/
theorem ofIndex_right : (ofIndex 2 1 : Slot α) = ⟨1, 2, 1, 1⟩ := by
  unfold ofIndex
  simp only [show ¬2 ≤ 1 by decide, if_false, StageLaws.evenTime_edges, StageLaws.from_middle]

/-- The left one of three heads. -/
theorem ofIndex_outer : (ofIndex 3 0 : Slot α) = ⟨0, 3, 0, -1⟩ := by
  unfold ofIndex
  simp only [show ¬3 ≤ 1 by decide, if_false, StageLaws.evenTime_edges, StageLaws.from_middle]

/-- The middle one of three heads. -/
theorem ofIndex_middle : (ofIndex 3 1 : Slot α) = ⟨1, 3, 0.5, 0⟩ := by
  unfold ofIndex
  simp only [show ¬3 ≤ 1 by decide, if_false, StageLaws.evenTime_edges, StageLaws.from_middle]

theorem side_left : (ofIndex 2 0 : Slot α).side = -1 := by
  unfold side
  rw [ofIndex_left, StageLaws.abs_edges.1, if_neg StageLaws.on_side, StageLaws.signum_edges.1]

theorem side_right : (ofIndex 2 1 : Slot α).side = 1 := by
  unfold side
  rw [ofIndex_right, StageLaws.abs_edges.2.1, if_neg StageLaws.on_side, StageLaws.signum_edges.2]

theorem distance_left : (ofIndex 2 0 : Slot α).distance = 1 := by
  rw [ofIndex_left]
  exact StageLaws.abs_edges.1

theorem distance_right : (ofIndex 2 1 : Slot α).distance = 1 := by
  rw [ofIndex_right]
  exact StageLaws.abs_edges.2.1

theorem distance_outer : (ofIndex 3 0 : Slot α).distance = 1 := by
  rw [ofIndex_outer]
  exact StageLaws.abs_edges.1

theorem distance_middle : (ofIndex 3 1 : Slot α).distance = 0 := by
  rw [ofIndex_middle]
  exact StageLaws.abs_edges.2.2

end Edges

theorem amid_side [OrderLaws α] [StageLaws α] (s : Slot α) : Amid (-1) 1 s.side := by
  have left_definite := (OrderLaws.le_self_of_le (-1 : α) 1 OrderLaws.neg_one_le_one).1
  unfold side
  split
  · exact Amid.of_le StageLaws.neg_one_le_zero OrderLaws.zero_le_one
  · intro definite
    rcases StageLaws.signum_cases _ definite with sign | sign
    · rw [sign]
      exact Or.inl ⟨left_definite, OrderLaws.neg_one_le_one⟩
    · rw [sign] at definite ⊢
      exact Or.inl ⟨OrderLaws.neg_one_le_one, definite⟩

theorem amid_position [MonotoneLaws α] [StageLaws α] (h : i < n) :
    Amid 0 1 (ofIndex n i : Slot α).position := by
  unfold ofIndex
  dsimp only
  split
  · exact Amid.of_le StageLaws.middle_mem.1 StageLaws.middle_mem.2
  · intro definite
    exact Or.inl (MonotoneLaws.ratio_mem i (n - 1) (by omega) definite)

theorem isFinite_neg_one [MonotoneLaws α] [StageLaws α] : isFinite (-1 : α) = true :=
  MonotoneLaws.isFinite_neg _ isFinite_one

variable [OrderLaws α] [MonotoneLaws α] [StageLaws α]

theorem amid_signedDistance (h : i < n) : Amid (-1) 1 (ofIndex n i : Slot α).signedDistance := by
  have scaled := ((amid_position h).sub_right StageLaws.isFinite_middle).mul_right
    StageLaws.isFinite_from_middle.1 StageLaws.isFinite_from_middle.2
    fun _ => StageLaws.isFinite_literal (α := α) 2 (by norm_num)
  rwa [StageLaws.from_middle.1, StageLaws.from_middle.2.1] at scaled

theorem amid_distance (h : i < n) : Amid 0 1 (ofIndex n i : Slot α).distance := by
  intro definite
  have definite_signed := MonotoneLaws.le_self_of_abs _ definite
  obtain ⟨above, below⟩ :=
    (amid_signedDistance (α := α) h).mem_of_le OrderLaws.neg_one_le_one definite_signed
  exact Or.inl ⟨MonotoneLaws.abs_nonneg _ definite_signed, MonotoneLaws.abs_le _ _ above below⟩

end Slot

end MovingLight
