import MovingLight.Proofs.Curve.Smooth

/-!
# Reading a curve — points in order of time

A curve whose times increase is read as one expects. At the time of a point it has the value of
the point, however close its neighbours are (`Curve.valueAt_of_mem`), and between two points that
are clear of each other it runs along the straight line through them
(`Curve.valueAfter_of_clear`). Neither holds of a curve whose times run backwards, where the
first stretch that reaches the asked time answers.

A sampled curve is such a curve: at each of its times it has the value it was sampled from
(`Curve.valueAt_sampled`).
-/

namespace MovingLight

/-- Where the straight line through two points is at a time. -/
def CurvePoint.line (p n : CurvePoint ℚ) (t : ℚ) : ℚ :=
  p.value + (n.value - p.value) * ((t - p.t) / (n.t - p.t))

/-! ## Points clear of each other -/

namespace Interpolant

theorem Clear.lt {p q : CurvePoint ℚ} (h : Clear p q) : p.t < q.t := by
  have apart : (0.000001 : ℚ) ≤ q.t - p.t := h
  linarith

instance : IsTrans (CurvePoint ℚ) Clear where
  trans p q r hpq hqr := by
    have apart : (0.000001 : ℚ) ≤ q.t - p.t := hpq
    have later : q.t < r.t := Clear.lt hqr
    show (0.000001 : ℚ) ≤ r.t - p.t
    linarith

end Interpolant

namespace Curve

/-- Points that are clear of their neighbours come in order of time. -/
theorem pairwise_of_clear {c : Curve ℚ} (h : c.IsChain Interpolant.Clear) :
    c.Pairwise fun p q => p.t < q.t :=
  (List.isChain_iff_pairwise.mp h).imp Interpolant.Clear.lt

variable [ExactReading] {t : ℚ} {p n : CurvePoint ℚ} {rest : List (CurvePoint ℚ)}

/-! ## Past a point -/

theorem valueAfter_of_lt (h : n.t < t) : valueAfter t p (n :: rest) = valueAfter t n rest := by
  rw [valueAfter, if_neg (not_le.mpr h)]

/-- A point that is reached has its own value, however close it follows. -/
theorem valueAfter_self (h : p.t < n.t) : valueAfter n.t p (n :: rest) = n.value := by
  have whole : (n.t - p.t) / (n.t - p.t) = 1 := div_self (sub_ne_zero.mpr h.ne')
  rw [valueAfter, if_pos le_rfl]
  split
  · rfl
  · rw [whole, Scalar.clampUnit, Scalar.clamp_of_mem ⟨zero_le_one, le_rfl⟩, Scalar.between]
    ring

/-- **Between two points that are clear of each other a curve runs straight.** -/
theorem valueAfter_of_clear (clear : Interpolant.Clear p n) (h : p.t ≤ t) (h' : t ≤ n.t) :
    valueAfter t p (n :: rest) = p.line n t := by
  have apart : (0.000001 : ℚ) ≤ n.t - p.t := clear
  have ahead : 0 < n.t - p.t := lt_of_lt_of_le (by norm_num) apart
  have far : ¬Scalar.abs (n.t - p.t) < 0.000001 := by
    rw [show Scalar.abs (n.t - p.t) = n.t - p.t from abs_of_pos ahead]
    exact not_lt.mpr apart
  have fraction : (t - p.t) / (n.t - p.t) ∈ Set.Icc (0 : ℚ) 1 :=
    ⟨div_nonneg (sub_nonneg.mpr h) ahead.le,
      (div_le_one ahead).mpr (sub_le_sub_right h' p.t)⟩
  rw [valueAfter, if_pos h', if_neg far, Scalar.clampUnit, Scalar.clamp_of_mem fraction]
  rfl

/-! ## At the points -/

theorem valueAfter_of_mem (ordered : (p :: rest).Pairwise fun p q => p.t < q.t)
    {q : CurvePoint ℚ} (h : q ∈ rest) : valueAfter q.t p rest = q.value := by
  induction rest generalizing p with
  | nil => exact absurd h List.not_mem_nil
  | cons n rest ih =>
    obtain ⟨before, later⟩ := List.pairwise_cons.mp ordered
    rcases List.mem_cons.mp h with rfl | h
    · exact valueAfter_self (before q List.mem_cons_self)
    · have passed : n.t < q.t := (List.pairwise_cons.mp later).1 q h
      rw [valueAfter_of_lt passed]
      exact ih later h

/-- **At the time of a point a curve has the value of the point**, where times increase. -/
theorem valueAt_of_mem {c : Curve ℚ} (ordered : c.Pairwise fun p q => p.t < q.t)
    (h : p ∈ c) : c.valueAt p.t = p.value := by
  cases c with
  | nil => exact absurd h List.not_mem_nil
  | cons first rest =>
    show (if p.t ≤ first.t then first.value else valueAfter p.t first rest) = p.value
    rcases List.mem_cons.mp h with rfl | h
    · exact if_pos le_rfl
    · have passed : first.t < p.t := (List.pairwise_cons.mp ordered).1 p h
      rw [if_neg (not_le.mpr passed)]
      exact valueAfter_of_mem ordered h

/-! ## Sampled curves -/

theorem sampled_ordered (count : Nat) (f : ℚ → ℚ) :
    (sampled count f).Pairwise fun p q => p.t < q.t := by
  refine List.pairwise_map.mpr (List.pairwise_lt_range.imp fun {i j} before => ?_)
  have positive : (0 : ℚ) < ((max count 2 - 1 : Nat) : ℚ) := by
    rw [Nat.cast_pos]
    omega
  exact div_lt_div_of_pos_right (Nat.cast_lt.mpr before) positive

theorem mem_sampled {count i : Nat} (f : ℚ → ℚ) (h : i < max count 2) :
    ⟨Scalar.evenTime i (max count 2), f (Scalar.evenTime i (max count 2))⟩ ∈ sampled count f :=
  List.mem_map.mpr ⟨i, List.mem_range.mpr h, rfl⟩

/-- **At each of its times a sampled curve has the value it was sampled from.** -/
theorem valueAt_sampled {count i : Nat} (f : ℚ → ℚ) (h : i < max count 2) :
    (sampled count f).valueAt (Scalar.evenTime i (max count 2)) =
      f (Scalar.evenTime i (max count 2)) :=
  valueAt_of_mem (sampled_ordered count f) (mem_sampled f h)

end Curve

end MovingLight
