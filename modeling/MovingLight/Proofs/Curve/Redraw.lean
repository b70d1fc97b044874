import MovingLight.Proofs.Channel.Ends
import MovingLight.Proofs.Curve.Reading
import MovingLight.Proofs.Curve.Rise

/-!
# Drawing again — a smooth curve passes through its points

A smooth curve has at each of its knots the value of the knot (`Interpolant.valueAt_of_mem`): the
cubic that starts there starts with it, and the one before ends with it. A curve drawn at an even
time that is the time of a point so shows the point. The first and the last value are drawn apart
from the others, and pinned to the ends of the knots; where the knots lie inside the effect, that
is what would have been read there (`Interpolant.drawnAt_eq_valueAt`).

Two things follow. What has been drawn at even times no closer than a millionth is clear of
itself, so all of it counts, nothing of it is joined, and drawing it as often again changes nothing
(`Curve.smooth?_evenly`). And points that are clear of each other, in whatever order they are
listed, come to one list once they are sorted (`Interpolant.usable_eq_of_perm`): they are drawn
alike, and their values are kept wherever an even time meets them.

Both need the clearance. Of two points closer to each other than a millionth the later one gives
the value and the earlier one the time, and which is later is for their order to say where they
stand at one time.
-/

namespace MovingLight

namespace Interpolant

/-! ## Points -/

section

variable {α : Type} [Scalar α]

/-- A curve is drawn through the points that are left of it when they are joined. -/
theorem ofCurve?_congr {c d : Curve α} (h : support c = support d) : ofCurve? c = ofCurve? d := by
  unfold ofCurve?
  rw [h]

end

/-- Two points are at least a millionth apart in time. -/
def FarApart (p q : CurvePoint ℚ) : Prop := 0.000001 ≤ |p.t - q.t|

theorem FarApart.symm {p q : CurvePoint ℚ} (h : FarApart p q) : FarApart q p := by
  unfold FarApart at h ⊢
  rwa [abs_sub_comm]

variable [ExactReading] {c : Curve ℚ}

/-- Points that are clear of each other are not joined. -/
theorem joined_eq_self {p : CurvePoint ℚ} {rest : List (CurvePoint ℚ)}
    (clear : (p :: rest).IsChain Clear) : joined p rest = p :: rest := by
  induction rest generalizing p with
  | nil => rfl
  | cons q rest ih =>
    obtain ⟨hpq, later⟩ := List.isChain_cons_cons.mp clear
    have apart : ¬Scalar.abs (q.t - p.t) < 0.000001 := by
      rw [show Scalar.abs (q.t - p.t) = q.t - p.t from abs_of_pos (sub_pos.mpr hpq.lt)]
      exact not_lt.mpr hpq
    rw [joined, if_neg apart, ih later]

/-- A curve is drawn through all its points if these are clear of each other once they are
sorted. -/
theorem support_eq_usable (clear : (usable c).IsChain Clear) : support c = usable c := by
  unfold support
  split
  · rename_i none
    exact none.symm
  · rename_i p rest points
    rw [points] at clear ⊢
    exact joined_eq_self clear

theorem support_eq_self (clear : c.IsChain Clear) : support c = c := by
  have sorted : usable c = c := usable_eq_self ((Curve.pairwise_of_clear clear).imp le_of_lt)
  rw [support_eq_usable (sorted.symm ▸ clear), sorted]

/-- Every point counts. -/
theorem usable_perm (c : Curve ℚ) : (usable c).Perm c := by
  have all : (c.filter fun p => Scalar.isFinite p.t && Scalar.isFinite p.value) = c :=
    List.filter_eq_self.mpr fun p _ => rfl
  unfold usable
  rw [all]
  exact List.mergeSort_perm c _

/-- **Points that are far apart are clear of each other once they are sorted.** -/
theorem isChain_usable (apart : c.Pairwise FarApart) : (usable c).IsChain Clear := by
  have sorted_apart : (usable c).Pairwise FarApart :=
    apart.perm (usable_perm c).symm FarApart.symm
  refine (List.Pairwise.imp₂ (fun p q ordered far => ?_) (usable_pairwise c) sorted_apart).isChain
  unfold FarApart at far
  rwa [abs_sub_comm, abs_of_nonneg (sub_nonneg.mpr ordered)] at far

/-- **The order in which points are listed makes no difference** if they are far apart. -/
theorem usable_eq_of_perm {d : Curve ℚ} (perm : d.Perm c) (apart : c.Pairwise FarApart) :
    usable d = usable c := by
  have apart' : d.Pairwise FarApart := apart.perm perm.symm FarApart.symm
  have ordered := Curve.pairwise_of_clear (isChain_usable apart)
  have ordered' := Curve.pairwise_of_clear (isChain_usable apart')
  refine List.Perm.eq_of_pairwise (fun p q _ _ hpq hqp => ?_) ordered' ordered ?_
  · exact absurd hpq (not_lt.mpr (le_of_lt hqp))
  · exact (usable_perm d).trans (perm.trans (usable_perm c).symm)

/-! ## At the knots -/

section Knots

variable {a k : Knot ℚ} {rest : List (Knot ℚ)} {f : Interpolant ℚ}

/-- From any knot on, the knots that follow are passed through. -/
theorem valueFrom_of_mem (leads : (a :: rest).IsChain Knot.Leads) (h : k ∈ a :: rest) :
    valueFrom k.t a rest = k.value := by
  induction rest generalizing a with
  | nil =>
    rw [List.mem_singleton.mp h]
    rfl
  | cons b rest ih =>
    obtain ⟨hab, later⟩ := List.isChain_cons_cons.mp leads
    rcases List.mem_cons.mp h with rfl | h
    · exact valueFrom_first leads
    · cases rest with
      | nil =>
        rw [List.mem_singleton.mp h]
        exact cubic_last hab
      | cons c rest =>
        rw [valueFrom_later (le_of_mem later h)]
        exact ih later h

/-- **A smooth curve passes through its knots.** -/
theorem valueAt_of_mem (leads : (f.first :: f.rest).IsChain Knot.Leads)
    (h : k ∈ f.first :: f.rest) : f.valueAt k.t = k.value := by
  have before : k.t ≤ f.last.t := le_last_of_mem leads h
  rw [valueAt_eq leads, min_eq_left before, max_eq_right (le_of_mem leads h)]
  exact valueFrom_of_mem leads h

/-- Where the knots lie inside the effect, the first and the last value that are drawn are those
read at its ends. -/
theorem drawnAt_eq_valueAt (leads : (f.first :: f.rest).IsChain Knot.Leads)
    (start : 0 ≤ f.first.t) (finish : f.last.t ≤ 1) {count : Nat} (several : 2 ≤ count) (i : Nat) :
    f.drawnAt count i = f.valueAt (Scalar.evenTime i count) := by
  unfold drawnAt
  split
  · rename_i first
    have time : Scalar.evenTime i count = (0 : ℚ) := by
      rw [first, Scalar.evenTime, Nat.cast_zero, zero_div]
    rw [time, valueAt_of_le leads start]
  · split
    · rename_i last
      have steps : ((count - 1 : Nat) : ℚ) ≠ 0 := Nat.cast_ne_zero.mpr (by omega)
      have time : Scalar.evenTime i count = (1 : ℚ) := by
        rw [last, Scalar.evenTime, div_self steps]
      rw [time, valueAt_of_ge leads finish]
    · rfl

end Knots

/-! ## At the points -/

variable {f : Interpolant ℚ} {p : CurvePoint ℚ}

/-- The points a curve is drawn through are those of its knots. -/
theorem mem_support_iff (h : ofCurve? c = some f) :
    p ∈ support c ↔ ∃ k ∈ f.first :: f.rest, k.point = p := by
  rw [← List.mem_map, eq_knots_of_ofCurve? h, map_point_knots]

/-- **What is drawn at the time of a point shows the point** if the points lie inside the
effect. -/
theorem drawnAt_of_mem (h : ofCurve? c = some f)
    (inside : ∀ q ∈ support c, q.t ∈ Set.Icc (0 : ℚ) 1) (hp : p ∈ support c) {count i : Nat}
    (several : 2 ≤ count) (time : Scalar.evenTime i count = p.t) :
    f.drawnAt count i = p.value := by
  have leads := isChain_of_ofCurve? h
  have knot_inside {k : Knot ℚ} (hk : k ∈ f.first :: f.rest) : k.t ∈ Set.Icc (0 : ℚ) 1 :=
    inside k.point ((mem_support_iff h).mpr ⟨k, hk, rfl⟩)
  obtain ⟨k, hk, rfl⟩ := (mem_support_iff h).mp hp
  rw [drawnAt_eq_valueAt leads (knot_inside List.mem_cons_self).1 (knot_inside f.last_mem).2
    several, time]
  exact valueAt_of_mem leads hk

end Interpolant

namespace Curve

section

variable {α : Type} [Scalar α]

/-- Points that do not count make no difference to what is drawn. -/
theorem smooth?_filter (c : Curve α) (count : Nat) :
    Curve.smooth? (c.filter Interpolant.counts) count = c.smooth? count := by
  unfold Curve.smooth?
  rw [Interpolant.ofCurve?_filter]

end

variable [ExactReading]

/-! ## What has been drawn -/

/-- **Evenly spaced points are drawn as they are** when they are drawn once more. -/
theorem smooth?_evenly (value : Nat → ℚ) {n : Nat} (few : n + 2 ≤ 1000001) :
    (evenly value n).smooth? (n + 2) = some (evenly value n) := by
  have points := Interpolant.support_eq_self (isChain_evenly value n few)
  have nonempty : evenly value n ≠ [] := by
    rw [evenly, List.range_succ_eq_map]
    exact List.cons_ne_nil _ _
  obtain ⟨f, hf⟩ := Interpolant.exists_ofCurve? nonempty
  have inside : ∀ q ∈ Interpolant.support (evenly value n), q.t ∈ Set.Icc (0 : ℚ) 1 := by
    rw [points]
    exact evenly_inside value n
  rw [smooth?_eq hf, Nat.max_eq_left (Nat.le_add_left 2 n)]
  refine congrArg some (List.map_congr_left fun i hi => ?_)
  have listed : ⟨Scalar.evenTime i (n + 2), value i⟩ ∈ Interpolant.support (evenly value n) := by
    rw [points]
    exact List.mem_map.mpr ⟨i, hi, rfl⟩
  rw [Interpolant.drawnAt_of_mem hf inside listed (Nat.le_add_left 2 n) rfl]

/-- **Drawing again changes nothing.** -/
theorem smooth?_smooth? {c d : Curve ℚ} {count : Nat} (several : 2 ≤ count)
    (few : count ≤ 1000001) (drawn : c.smooth? count = some d) : d.smooth? count = some d := by
  obtain ⟨n, rfl⟩ : ∃ n, count = n + 2 := ⟨count - 2, by omega⟩
  obtain ⟨f, hf, -⟩ := Option.map_eq_some_iff.mp drawn
  rw [smooth?_eq hf, Nat.max_eq_left several] at drawn
  obtain rfl := Option.some.inj drawn
  exact smooth?_evenly (f.drawnAt (n + 2)) few

end Curve

/-- **Drawing settles.** Points that do not count make no difference. What has been drawn at even
times no closer than a millionth stays as it is when it is drawn as often again. Points inside the
effect that are at least a millionth apart may be listed in any order, and what is drawn at the
time of one of them has its value. -/
theorem Curve.smooth_settles [ExactReading] :
    (∀ (α : Type) [Scalar α] (c : Curve α) (count : Nat),
      Curve.smooth? (c.filter Interpolant.counts) count = c.smooth? count) ∧
    (∀ c : Curve ℚ, (∃ p ∈ c, Interpolant.counts p = true) →
      ∀ count, 2 ≤ count → count ≤ 1000001 →
        ∃ d, c.smooth? count = some d ∧ d.smooth? count = some d) ∧
    ∀ c : Curve ℚ, (∀ p ∈ c, Interpolant.counts p = true ∧ p.t ∈ Set.Icc (0 : ℚ) 1) →
      c.Pairwise Interpolant.FarApart → ∀ count,
        (∀ c' : Curve ℚ, c'.Perm c → c'.smooth? count = c.smooth? count) ∧
        (c ≠ [] → ∃ d, c.smooth? count = some d ∧
          ∀ p ∈ c, ∀ q ∈ d, q.t = p.t → q.value = p.value) := by
  refine ⟨fun α _ c count => c.smooth?_filter count, fun c counted count several few => ?_,
    fun c inside apart count => ⟨fun c' perm => ?_, fun nonempty => ?_⟩⟩
  · obtain ⟨d, drawn⟩ := c.exists_smooth? (List.ne_nil_of_mem counted.choose_spec.1) count
    exact ⟨d, drawn, smooth?_smooth? several few drawn⟩
  · have sorted := Interpolant.usable_eq_of_perm perm apart
    have points : Interpolant.support c' = Interpolant.support c := by
      unfold Interpolant.support
      rw [sorted]
    unfold Curve.smooth?
    rw [Interpolant.ofCurve?_congr points]
  · obtain ⟨f, hf⟩ := Interpolant.exists_ofCurve? nonempty
    have points := Interpolant.support_eq_usable (Interpolant.isChain_usable apart)
    have listed {p : CurvePoint ℚ} : p ∈ Interpolant.support c ↔ p ∈ c := by
      rw [points]
      exact Interpolant.mem_usable
    refine ⟨_, Curve.smooth?_eq hf count, fun p hp q hq time => ?_⟩
    obtain ⟨i, -, rfl⟩ := List.mem_map.mp hq
    exact Interpolant.drawnAt_of_mem hf (fun r hr => (inside r (listed.mp hr)).2)
      (listed.mpr hp) (Nat.le_max_right count 2) time

/-- Three points listed backwards, one of them at a time that is drawn. -/
theorem Curve.smooth_settles_of_backward_points :
    letI := ExactReading.parabolic
    let c : Curve ℚ := [⟨1, 90⟩, ⟨0.25, 200⟩, ⟨0, 10⟩]
    (∀ p ∈ c, Interpolant.counts p = true ∧ p.t ∈ Set.Icc (0 : ℚ) 1) ∧
      c.Pairwise Interpolant.FarApart ∧
      ∃ d, c.smooth? 5 = some d ∧ d.smooth? 5 = some d ∧ Curve.smooth? c.reverse 5 = some d ∧
        ∀ q ∈ d, q.t = 0.25 → q.value = 200 := by
  let reading := ExactReading.parabolic
  intro c
  have inside : ∀ p ∈ c, Interpolant.counts p = true ∧ p.t ∈ Set.Icc (0 : ℚ) 1 := by
    intro p hp
    simp only [c, List.mem_cons, List.not_mem_nil, or_false] at hp
    rcases hp with rfl | rfl | rfl <;> exact ⟨rfl, by norm_num, by norm_num⟩
  have apart : c.Pairwise Interpolant.FarApart := by
    simp only [c, List.pairwise_cons, List.mem_cons, List.not_mem_nil, or_false, forall_eq_or_imp,
      forall_eq, false_implies, implies_true, List.Pairwise.nil, and_true, Interpolant.FarApart]
    norm_num [abs_of_pos]
  obtain ⟨-, again, points⟩ := Curve.smooth_settles
  obtain ⟨d, drawn, settled⟩ :=
    again c ⟨⟨0, 10⟩, by simp [c], rfl⟩ 5 (by norm_num) (by norm_num)
  obtain ⟨alike, kept⟩ := points c inside apart 5
  obtain ⟨d', drawn', values⟩ := kept (List.cons_ne_nil _ _)
  obtain rfl : d' = d := Option.some.inj (drawn'.symm.trans drawn)
  refine ⟨inside, apart, d', drawn, settled, ?_, values ⟨0.25, 200⟩ (by simp [c])⟩
  rw [alike c.reverse (List.reverse_perm c), drawn]

end MovingLight
