import Mathlib.Data.List.Pairwise

/-!
# Sorting by a number — what is first of each

Effects are sorted by their start and assignments by the number of their channel. Either
way entries of one number keep the order they were given in (`Sorting.filter_mergeSort`), so
what comes first of a number in the sorted list is what came first of it before
(`Sorting.find?_mergeSort`). Whoever then takes one entry of each number, or lets a later one
win, speaks of the order given.
-/

namespace MovingLight.Sorting

variable {β : Type} (key : β → Nat)

/-- The order of numbers, as sorting decides it, is transitive. -/
theorem decide_le_trans (a b c : β) (hab : decide (key a ≤ key b) = true)
    (hbc : decide (key b ≤ key c) = true) : decide (key a ≤ key c) = true := by
  rw [decide_eq_true_eq] at *
  exact Nat.le_trans hab hbc

theorem decide_le_total (a b : β) : (decide (key a ≤ key b) || decide (key b ≤ key a)) = true := by
  rw [Bool.or_eq_true, decide_eq_true_eq, decide_eq_true_eq]
  exact Nat.le_total _ _

theorem pairwise_mergeSort (entries : List β) :
    (entries.mergeSort fun a b => key a ≤ key b).Pairwise fun a b => key a ≤ key b := by
  have sorted := List.pairwise_mergeSort (decide_le_trans key) (decide_le_total key) entries
  exact sorted.imp of_decide_eq_true

/-- What stands in order inside a list stands in that order inside the sorted list. -/
theorem sublist_mergeSort {part entries : List β} (h : part.Pairwise fun a b => key a ≤ key b)
    (hsub : part.Sublist entries) :
    part.Sublist (entries.mergeSort fun a b => key a ≤ key b) :=
  List.sublist_mergeSort (decide_le_trans key) (decide_le_total key) (h.imp decide_eq_true) hsub

/-- **Sorting keeps the order of entries with one number.** -/
theorem filter_mergeSort (number : Nat) (entries : List β) :
    (entries.mergeSort fun a b => key a ≤ key b).filter (key · = number) =
      entries.filter (key · = number) := by
  have same : ∀ e ∈ entries.filter (key · = number), key e = number := fun e he =>
    of_decide_eq_true (List.mem_filter.mp he).2
  have level : (entries.filter (key · = number)).Pairwise fun a b => key a ≤ key b := by
    refine List.pairwise_of_forall_mem_list fun a ha b hb => ?_
    exact Nat.le_of_eq ((same a ha).trans (same b hb).symm)
  have inside := (sublist_mergeSort key level List.filter_sublist).filter (key · = number)
  rw [List.filter_filter] at inside
  simp only [Bool.and_self] at inside
  exact (inside.eq_of_length ((List.mergeSort_perm entries _).filter _).length_eq.symm).symm

/-- **What is first of a number stays so.** -/
theorem find?_mergeSort (number : Nat) (entries : List β) :
    (entries.mergeSort fun a b => key a ≤ key b).find? (key · = number) =
      entries.find? (key · = number) := by
  rw [← List.head?_filter, ← List.head?_filter, filter_mergeSort]

end MovingLight.Sorting
