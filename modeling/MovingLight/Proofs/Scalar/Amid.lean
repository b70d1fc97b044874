import MovingLight.Proofs.Scalar.Monotone

/-!
# Amid — what lies between two numbers stays between them

A formation is a short sum of products, and each operation in it keeps the order of what
varies or turns it around. So whatever it makes of a number between two others lies between
what it makes of those two, in one order or the other: `Scalar.Amid`. Rounding does not
change this (`Scalar.MonotoneLaws`), and an indefinite number counts as being anywhere,
because no comparison with it ever finds a difference.

Products need what they are given to be finite: an infinite number times zero would be
indefinite at one end and nothing would be said of what lies between.
-/

namespace MovingLight

namespace Scalar

variable {α : Type} [Scalar α]

/-- **A number lies between two others**, whichever of these is the lower, unless it is
indefinite. -/
def Amid (lo hi x : α) : Prop := x ≤ x → lo ≤ x ∧ x ≤ hi ∨ hi ≤ x ∧ x ≤ lo

/-- A zero of either sign. -/
def Null (x : α) : Prop := x ≤ 0 ∧ 0 ≤ x

theorem Null.mul_right [MonotoneLaws α] {x c : α} (h : Null x) (finite : isFinite c = true) :
    Null (x * c) := MonotoneLaws.mul_null x c h.1 h.2 finite

theorem Null.mul_left [MonotoneLaws α] {x c : α} (h : Null x) (finite : isFinite c = true) :
    Null (c * x) := by
  rw [MonotoneLaws.mul_comm]
  exact h.mul_right finite

namespace Amid

variable {lo hi x y z c : α}

theorem of_le (h : lo ≤ x) (h' : x ≤ hi) : Amid lo hi x := fun _ => Or.inl ⟨h, h'⟩

theorem of_indefinite (h : ¬x ≤ x) : Amid lo hi x := fun definite => absurd definite h

theorem symm (h : Amid lo hi x) : Amid hi lo x := fun definite => (h definite).symm

theorem refl (x : α) : Amid x x x := fun definite => Or.inl ⟨definite, definite⟩

section Order

variable [OrderLaws α]

theorem total (hx : x ≤ x) (hy : y ≤ y) : x ≤ y ∨ y ≤ x := by
  by_cases h : x ≤ y
  · exact Or.inl h
  · exact Or.inr (OrderLaws.le_of_not_le x y hx hy h)

theorem left (h : hi ≤ hi) : Amid lo hi lo := fun definite =>
  (total definite h).imp (fun le => ⟨definite, le⟩) fun le => ⟨le, definite⟩

theorem right (h : lo ≤ lo) : Amid lo hi hi := (left h).symm

/-- Only something between definite numbers is definite. -/
theorem definite_ends (h : Amid lo hi x) (definite : x ≤ x) : lo ≤ lo ∧ hi ≤ hi := by
  rcases h definite with ⟨above, below⟩ | ⟨above, below⟩
  · exact ⟨(OrderLaws.le_self_of_le lo x above).1, (OrderLaws.le_self_of_le x hi below).2⟩
  · exact ⟨(OrderLaws.le_self_of_le x lo below).2, (OrderLaws.le_self_of_le hi x above).1⟩

end Order

section Monotone

variable [MonotoneLaws α]

theorem between_of_le (hx : lo ≤ x ∧ x ≤ hi ∨ hi ≤ x ∧ x ≤ lo)
    (hy : lo ≤ y ∧ y ≤ hi ∨ hi ≤ y ∧ y ≤ lo) (above : x ≤ z) (below : z ≤ y) :
    lo ≤ z ∧ z ≤ hi ∨ hi ≤ z ∧ z ≤ lo := by
  have le {a b c : α} (h : a ≤ b) (h' : b ≤ c) : a ≤ c := MonotoneLaws.le_trans a b c h h'
  rcases hx with ⟨lo_le, le_hi⟩ | ⟨hi_le, le_lo⟩
  · refine Or.inl ⟨le lo_le above, ?_⟩
    rcases hy with ⟨-, y_le⟩ | ⟨-, y_le⟩
    · exact le below y_le
    · exact le (le below y_le) (le lo_le le_hi)
  · refine Or.inr ⟨le hi_le above, ?_⟩
    rcases hy with ⟨-, y_le⟩ | ⟨-, y_le⟩
    · exact le (le below y_le) (le hi_le le_lo)
    · exact le below y_le

/-- A number between two others in order lies in the interval. -/
theorem mem_of_le (h : Amid lo hi x) (le : lo ≤ hi) (definite : x ≤ x) : lo ≤ x ∧ x ≤ hi := by
  rcases h definite with between | ⟨above, below⟩
  · exact between
  · exact ⟨MonotoneLaws.le_trans _ _ _ le above, MonotoneLaws.le_trans _ _ _ below le⟩

theorem neg (h : Amid lo hi x) : Amid (-lo) (-hi) (-x) := by
  intro definite
  rcases h (MonotoneLaws.le_self_of_neg x definite) with ⟨above, below⟩ | ⟨above, below⟩
  · exact Or.inr ⟨MonotoneLaws.neg_le_neg _ _ below, MonotoneLaws.neg_le_neg _ _ above⟩
  · exact Or.inl ⟨MonotoneLaws.neg_le_neg _ _ below, MonotoneLaws.neg_le_neg _ _ above⟩

theorem add_right (h : Amid lo hi x) (finite : isFinite c = true) :
    Amid (lo + c) (hi + c) (x + c) := by
  intro definite
  have keep {a b : α} (le : a ≤ b) : a + c ≤ b + c := MonotoneLaws.add_le_add_right a b c le finite
  rcases h (MonotoneLaws.le_self_of_add x c definite).1 with ⟨above, below⟩ | ⟨above, below⟩
  · exact Or.inl ⟨keep above, keep below⟩
  · exact Or.inr ⟨keep above, keep below⟩

theorem add_left (h : Amid lo hi x) (finite : isFinite c = true) :
    Amid (c + lo) (c + hi) (c + x) := by
  rw [MonotoneLaws.add_comm c, MonotoneLaws.add_comm c, MonotoneLaws.add_comm c]
  exact h.add_right finite

theorem sub_right (h : Amid lo hi x) (finite : isFinite c = true) :
    Amid (lo - c) (hi - c) (x - c) := by
  rw [MonotoneLaws.sub_eq_add_neg, MonotoneLaws.sub_eq_add_neg, MonotoneLaws.sub_eq_add_neg]
  exact h.add_right (MonotoneLaws.isFinite_neg c finite)

theorem sub_left (h : Amid lo hi x) (finite : isFinite c = true) :
    Amid (c - lo) (c - hi) (c - x) := by
  rw [MonotoneLaws.sub_eq_add_neg, MonotoneLaws.sub_eq_add_neg, MonotoneLaws.sub_eq_add_neg]
  exact h.neg.add_left finite

/-- What lies between finite numbers is finite. -/
theorem isFinite (h : Amid lo hi x) (definite : x ≤ x) (finite_lo : Scalar.isFinite lo = true)
    (finite_hi : Scalar.isFinite hi = true) : Scalar.isFinite x = true := by
  rcases h definite with ⟨above, below⟩ | ⟨above, below⟩
  · exact MonotoneLaws.isFinite_of_mem lo hi x finite_lo finite_hi above below
  · exact MonotoneLaws.isFinite_of_mem hi lo x finite_hi finite_lo above below

theorem half (h : Amid lo hi x) (finite_lo : Scalar.isFinite lo = true)
    (finite_hi : Scalar.isFinite hi = true) : Amid (lo / 2) (hi / 2) (x / 2) := by
  intro definite
  have definite_x := MonotoneLaws.le_self_of_half x definite
  have finite := h.isFinite definite_x finite_lo finite_hi
  rcases h definite_x with ⟨above, below⟩ | ⟨above, below⟩
  · exact Or.inl ⟨MonotoneLaws.half_le_half _ _ above finite_lo finite,
      MonotoneLaws.half_le_half _ _ below finite finite_hi⟩
  · exact Or.inr ⟨MonotoneLaws.half_le_half _ _ above finite_hi finite,
      MonotoneLaws.half_le_half _ _ below finite finite_lo⟩

/-- What is apart is no further apart than the two numbers it lies between. -/
theorem apart_of_le (hx : lo ≤ x ∧ x ≤ hi ∨ hi ≤ x ∧ x ≤ lo)
    (hy : lo ≤ y ∧ y ≤ hi ∨ hi ≤ y ∧ y ≤ lo) (le : x ≤ y) (apart : Movement.apart x y = true) :
    Movement.apart lo hi = true := by
  have through {a b c : α} (h : a ≤ b) (h' : b ≤ c) : a ≤ c := MonotoneLaws.le_trans a b c h h'
  rcases hx with ⟨lo_le, le_hi⟩ | ⟨hi_le, le_lo⟩
  · have below : y ≤ hi := by
      rcases hy with ⟨-, y_le⟩ | ⟨-, y_le⟩
      · exact y_le
      · exact through y_le (through lo_le le_hi)
    exact MonotoneLaws.apart_of_le lo x y hi lo_le le below apart
  · have below : y ≤ lo := by
      rcases hy with ⟨-, y_le⟩ | ⟨-, y_le⟩
      · exact through y_le (through hi_le le_lo)
      · exact y_le
    rw [MonotoneLaws.apart_comm]
    exact MonotoneLaws.apart_of_le hi x y lo hi_le le below apart

end Monotone

variable [OrderLaws α] [MonotoneLaws α]

/-- **What lies between two numbers between two others lies between those.** -/
theorem trans (hx : Amid lo hi x) (hy : Amid lo hi y) (h : Amid x y z) : Amid lo hi z := by
  intro definite
  obtain ⟨definite_x, definite_y⟩ := h.definite_ends definite
  rcases h definite with ⟨above, below⟩ | ⟨above, below⟩
  · exact between_of_le (hx definite_x) (hy definite_y) above below
  · exact between_of_le (hy definite_y) (hx definite_x) above below

theorem mul_right (h : Amid lo hi x) (finite_lo : Scalar.isFinite lo = true)
    (finite_hi : Scalar.isFinite hi = true) (finite : c ≤ c → Scalar.isFinite c = true) :
    Amid (lo * c) (hi * c) (x * c) := by
  intro definite
  obtain ⟨definite_x, definite_c⟩ := MonotoneLaws.le_self_of_mul x c definite
  have finite_x := h.isFinite definite_x finite_lo finite_hi
  have finite_c := finite definite_c
  rcases total zero_le_zero definite_c with nonneg | nonpos
  · have keep {a b : α} (ha : Scalar.isFinite a = true) (hb : Scalar.isFinite b = true)
        (le : a ≤ b) : a * c ≤ b * c := MonotoneLaws.mul_le_mul_right a b c le ha hb finite_c nonneg
    exact (h definite_x).imp
      (fun between => ⟨keep finite_lo finite_x between.1, keep finite_x finite_hi between.2⟩)
      fun between => ⟨keep finite_hi finite_x between.1, keep finite_x finite_lo between.2⟩
  · have turn {a b : α} (ha : Scalar.isFinite a = true) (hb : Scalar.isFinite b = true)
        (le : a ≤ b) : b * c ≤ a * c :=
      MonotoneLaws.mul_le_mul_right_of_nonpos a b c le ha hb finite_c nonpos
    exact (h definite_x).symm.imp
      (fun between => ⟨turn finite_x finite_lo between.2, turn finite_hi finite_x between.1⟩)
      fun between => ⟨turn finite_x finite_hi between.2, turn finite_lo finite_x between.1⟩

theorem mul_left (h : Amid lo hi x) (finite_lo : Scalar.isFinite lo = true)
    (finite_hi : Scalar.isFinite hi = true) (finite : c ≤ c → Scalar.isFinite c = true) :
    Amid (c * lo) (c * hi) (c * x) := by
  rw [MonotoneLaws.mul_comm c, MonotoneLaws.mul_comm c, MonotoneLaws.mul_comm c]
  exact h.mul_right finite_lo finite_hi finite

theorem of_null (h : Amid lo hi x) (hx : Null x) (hy : Null y) : Amid lo hi y :=
  h.trans h (of_le (MonotoneLaws.le_trans x 0 y hx.1 hy.2) (MonotoneLaws.le_trans y 0 x hy.1 hx.2))

/-- **Where two numbers are not apart, none between them are.** -/
theorem not_apart (hx : Amid lo hi x) (hy : Amid lo hi y)
    (close : Movement.apart lo hi = false) : Movement.apart x y = false := by
  refine Bool.eq_false_iff.mpr fun apart => Bool.eq_false_iff.mp close ?_
  obtain ⟨definite_x, definite_y⟩ := MonotoneLaws.le_self_of_apart x y apart
  rcases total definite_x definite_y with le | le
  · exact apart_of_le (hx definite_x) (hy definite_y) le apart
  · rw [MonotoneLaws.apart_comm] at apart
    exact apart_of_le (hy definite_y) (hx definite_x) le apart

theorem not_apart_left (h : Amid lo hi x) (close : Movement.apart lo hi = false) :
    Movement.apart x lo = false := by
  refine Bool.eq_false_iff.mpr fun apart => ?_
  have definite := h.definite_ends (MonotoneLaws.le_self_of_apart x lo apart).1
  exact Bool.eq_false_iff.mp (h.not_apart (left definite.2) close) apart

end Amid

end Scalar

end MovingLight
