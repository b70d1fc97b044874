import MovingLight.Curve
import MovingLight.Proofs.Scalar.Exact

/-!
# The range of a curve

`Curve.Within s` says that a curve has points and that all their values lie in
an interval `s`. What is read off such a curve lies in `s` as well, at every
time and however the times of its points are listed (`Curve.Within.valueAt_mem`):
between two points the program goes a fraction of the way that it has limited to
the unit interval, so not even a point listed out of order throws it off.

A curve without points is dark, and dark need not lie in `s`. This is why a
curve within an interval has points, and why everything that makes curves is
shown to make some.
-/

namespace MovingLight

namespace Curve

/-- **A curve has points, and their values lie in an interval.** -/
structure Within (s : Set ℚ) (c : Curve ℚ) : Prop where
  nonempty : c ≠ []
  values : ∀ p ∈ c, p.value ∈ s

variable [ExactReading] {s : Set ℚ} {c : Curve ℚ}

/-! ## Reading a curve -/

/-- Past a point, the value lies between those of two points. The induction is on the points that
follow, for any point they follow. -/
theorem valueAfter_mem [s.OrdConnected] (t : ℚ) {p : CurvePoint ℚ} {rest : List (CurvePoint ℚ)}
    (hp : p.value ∈ s) (hrest : ∀ n ∈ rest, n.value ∈ s) : valueAfter t p rest ∈ s := by
  induction rest generalizing p with
  | nil => exact hp
  | cons n rest ih =>
    have hn := hrest n List.mem_cons_self
    rw [valueAfter]
    split
    · split
      · exact hn
      · exact Scalar.between_mem hp hn (Scalar.clampUnit_mem _)
    · exact ih hn fun m hm => hrest m (List.mem_cons_of_mem _ hm)

/-- **A curve stays in its interval at every time.** -/
theorem Within.valueAt_mem [s.OrdConnected] (h : c.Within s) (t : ℚ) : c.valueAt t ∈ s := by
  cases c with
  | nil => exact absurd rfl h.nonempty
  | cons first rest =>
    have hfirst := h.values first List.mem_cons_self
    show (if t ≤ first.t then first.value else valueAfter t first rest) ∈ s
    split
    · exact hfirst
    · exact valueAfter_mem t hfirst fun n hn => h.values n (List.mem_cons_of_mem _ hn)

/-! ## Making curves -/

theorem length_sampled (count : Nat) (f : ℚ → ℚ) : (sampled count f).length = max count 2 := by
  simp [sampled]

/-- Values drawn from an interval make a curve within it. -/
theorem within_sampled (count : Nat) {f : ℚ → ℚ} (h : ∀ t, f t ∈ s) :
    (sampled count f).Within s := by
  constructor
  · refine List.ne_nil_of_length_pos ?_
    rw [length_sampled]
    omega
  · intro p hp
    obtain ⟨i, -, rfl⟩ := List.mem_map.mp hp
    exact h _

theorem within_flat (count : Nat) {x : ℚ} (h : x ∈ s) : (flat x count).Within s :=
  within_sampled count fun _ => h

theorem within_linear {x y : ℚ} (hx : x ∈ s) (hy : y ∈ s) : (linear x y).Within s := by
  constructor
  · exact List.cons_ne_nil _ _
  · intro p hp
    simp only [linear, List.mem_cons, List.not_mem_nil, or_false] at hp
    rcases hp with rfl | rfl
    · exact hx
    · exact hy

/-- The leading part of a curve stays in the interval: it has the values of the curve before the
cut, and at the cut the value there. -/
theorem Within.truncated [s.OrdConnected] (h : c.Within s) (ratio : ℚ) :
    (c.truncated ratio).Within s := by
  cases c with
  | nil => exact absurd rfl h.nonempty
  | cons first rest =>
    have hcut : valueAt (first :: rest) ratio ∈ s := h.valueAt_mem ratio
    unfold Curve.truncated
    simp only [valueAt?]
    split
    · exact within_flat 2 hcut
    · constructor
      · exact List.append_ne_nil_of_right_ne_nil _ (List.cons_ne_nil _ _)
      · intro p hp
        rcases List.mem_append.mp hp with hp | hp
        · obtain ⟨o, ho, rfl⟩ := List.mem_map.mp hp
          exact h.values o (List.mem_filter.mp ho).1
        · obtain rfl := List.mem_singleton.mp hp
          exact hcut

end Curve

end MovingLight
