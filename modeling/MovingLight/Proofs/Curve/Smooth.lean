import MovingLight.Proofs.Curve.Monotone

/-!
# Smooth curves — what is drawn stays where the points are

A smooth curve is drawn through the points of `Interpolant.support`: those of a
curve in order of time, each a millionth or more after the one before. It has a
knot at every such point (`map_point_knots`), each of which leads to the next, so
that its values lie in any interval that the values of the points lie in
(`Interpolant.valueAt_mem`, `Curve.Within.smooth?`).

Nothing is asked of the curve but that it has points. They may be listed in any
order, at any times, and several at one time: sorting and joining is what makes
neighbouring times differ, and without that no secant would have a meaning.
-/

namespace MovingLight

/-- The point a knot is at. -/
def Knot.point (k : Knot ℚ) : CurvePoint ℚ := ⟨k.t, k.value⟩

namespace Interpolant

section

variable {α : Type} [Scalar α]

/-- Joining keeps the time of the point it starts from. -/
theorem exists_joined (p : CurvePoint α) (rest : List (CurvePoint α)) :
    ∃ value later, joined p rest = ⟨p.t, value⟩ :: later := by
  induction rest generalizing p with
  | nil => exact ⟨p.value, [], rfl⟩
  | cons q rest ih =>
    rw [joined]
    split
    · exact ih ⟨p.t, q.value⟩
    · exact ⟨p.value, joined q rest, rfl⟩

/-! ## As many slopes as points -/

theorem length_spans (p : CurvePoint α) (rest : List (CurvePoint α)) :
    (spans (p :: rest)).length = rest.length := by
  induction rest generalizing p with
  | nil => rfl
  | cons q rest ih => rw [spans, List.length_cons, List.length_cons, ih]

theorem length_slopesAfter (a b : Span α) (rest : List (Span α)) :
    (slopesAfter a (b :: rest)).length = rest.length + 2 := by
  induction rest generalizing a b with
  | nil => rfl
  | cons c rest ih => rw [slopesAfter, List.length_cons, ih, List.length_cons]; simp

theorem length_slopes (spans : List (Span α)) : (slopes spans).length = spans.length + 1 := by
  match spans with
  | [] => rfl
  | [a] => rfl
  | a :: b :: rest => rw [slopes, List.length_cons, length_slopesAfter, List.length_cons,
      List.length_cons]

end

/-! ## The points a curve is drawn through -/

theorem last_mem (f : Interpolant ℚ) : f.last ∈ f.first :: f.rest :=
  List.getLastD_mem_cons

/-- A point lies clear of the one before it: at least a millionth later. -/
def Clear (p q : CurvePoint ℚ) : Prop := 0.000001 ≤ q.t - p.t

variable [ExactReading]

theorem mem_usable {c : Curve ℚ} {p : CurvePoint ℚ} : p ∈ usable c ↔ p ∈ c := by
  unfold usable
  rw [(List.mergeSort_perm _ _).mem_iff, List.mem_filter]
  exact and_iff_left rfl

/-- Points come in order of time. -/
theorem usable_pairwise (c : Curve ℚ) : (usable c).Pairwise fun p q => p.t ≤ q.t := by
  have trans : ∀ p q r : CurvePoint ℚ, Scalar.totalLe p.t q.t → Scalar.totalLe q.t r.t →
      Scalar.totalLe p.t r.t := fun p q r hpq hqr =>
    decide_eq_true (le_trans (of_decide_eq_true hpq) (of_decide_eq_true hqr))
  have total : ∀ p q : CurvePoint ℚ, Scalar.totalLe p.t q.t || Scalar.totalLe q.t p.t := by
    intro p q
    rw [Bool.or_eq_true]
    exact (le_total p.t q.t).imp decide_eq_true decide_eq_true
  have sorted := List.pairwise_mergeSort trans total
    (c.filter fun p => Scalar.isFinite p.t && Scalar.isFinite p.value)
  exact sorted.imp fun h => of_decide_eq_true h

/-- Joined points take their values from those they are joined from. -/
theorem joined_values {s : Set ℚ} {p : CurvePoint ℚ} {rest : List (CurvePoint ℚ)}
    (h : ∀ q ∈ p :: rest, q.value ∈ s) : ∀ q ∈ joined p rest, q.value ∈ s := by
  induction rest generalizing p with
  | nil => exact h
  | cons q rest ih =>
    obtain ⟨hp, hq, hrest⟩ := List.forall_mem_cons.mp h |>.imp_right List.forall_mem_cons.mp
    rw [joined]
    split
    · exact ih (List.forall_mem_cons.mpr ⟨hq, hrest⟩)
    · exact List.forall_mem_cons.mpr ⟨hp, ih (List.forall_mem_cons.mpr ⟨hq, hrest⟩)⟩

/-- Of points in order of time, joining leaves points clear of each other. -/
theorem isChain_joined {p : CurvePoint ℚ} {rest : List (CurvePoint ℚ)}
    (h : (p :: rest).Pairwise fun p q => p.t ≤ q.t) : (joined p rest).IsChain Clear := by
  induction rest generalizing p with
  | nil => exact .singleton _
  | cons q rest ih =>
    obtain ⟨first, later⟩ := List.pairwise_cons.mp h
    obtain ⟨hpq, hrest⟩ := List.forall_mem_cons.mp first
    rw [joined]
    split
    · exact ih (List.pairwise_cons.mpr ⟨hrest, (List.pairwise_cons.mp later).2⟩)
    · rename_i far
      rw [show Scalar.abs (q.t - p.t) = q.t - p.t from abs_of_nonneg (sub_nonneg.mpr hpq)] at far
      -- whatever `q` is joined with, the next point left is at the time of `q`
      obtain ⟨value, tail, starts⟩ := exists_joined q rest
      have chain := ih later
      rw [starts] at chain ⊢
      exact .cons_cons (not_lt.mp far) chain

theorem isChain_support (c : Curve ℚ) : (support c).IsChain Clear := by
  have ordered := usable_pairwise c
  unfold support
  split
  · exact .nil
  · rename_i points
    rw [points] at ordered
    exact isChain_joined ordered

theorem support_values {s : Set ℚ} {c : Curve ℚ} (h : ∀ p ∈ c, p.value ∈ s) :
    ∀ p ∈ support c, p.value ∈ s := by
  have usable_values : ∀ p ∈ usable c, p.value ∈ s := fun p hp => h p (mem_usable.mp hp)
  unfold support
  split
  · exact List.forall_mem_nil _
  · rename_i points
    rw [points] at usable_values
    exact joined_values usable_values

theorem support_ne_nil {c : Curve ℚ} (h : c ≠ []) : support c ≠ [] := by
  obtain ⟨p, hp⟩ := List.exists_mem_of_ne_nil c h
  have mem := mem_usable.mpr hp
  unfold support
  split
  · rename_i none_usable
    rw [none_usable] at mem
    exact absurd mem List.not_mem_nil
  · rename_i first rest points
    obtain ⟨value, later, starts⟩ := exists_joined first rest
    rw [starts]
    exact List.cons_ne_nil _ _

/-! ## Knots and their points -/

/-- **Every point has a knot**, in order. -/
theorem map_point_knots (points : List (CurvePoint ℚ)) :
    (knots points).map Knot.point = points := by
  cases points with
  | nil => rfl
  | cons p rest =>
    have enough : (p :: rest).length ≤ (slopes (spans (p :: rest))).length := by
      rw [length_slopes, length_spans, List.length_cons]
    calc (knots (p :: rest)).map Knot.point
        = ((p :: rest).zip (slopes (spans (p :: rest)))).map Prod.fst := by
          rw [knots, knotsWith, List.map_zipWith, List.map_zip_eq_zipWith]
          rfl
      _ = p :: rest := List.map_fst_zip enough

/-! ## Reading a smooth curve -/

/-- From the first knot to the last, the value lies in any interval that those of the knots lie in.
The induction is on the knots that follow, for any knot they follow. -/
theorem valueFrom_mem {s : Set ℚ} [s.OrdConnected] {a : Knot ℚ} {rest : List (Knot ℚ)} {x : ℚ}
    (leads : (a :: rest).IsChain Knot.Leads) (values : ∀ k ∈ a :: rest, k.value ∈ s)
    (hfirst : a.t ≤ x) (hlast : x ≤ (rest.getLastD a).t) : valueFrom x a rest ∈ s := by
  induction rest generalizing a with
  | nil => exact values a List.mem_cons_self
  | cons b rest ih =>
    obtain ⟨hab, later⟩ := List.isChain_cons_cons.mp leads
    obtain ⟨ha, following⟩ := List.forall_mem_cons.mp values
    have hb := following b List.mem_cons_self
    have here (hx : x ≤ b.t) : cubic a b x ∈ s :=
      Set.OrdConnected.uIcc_subset ‹_› ha hb (cubic_mem_uIcc hab ⟨hfirst, hx⟩)
    cases rest with
    | nil => exact here hlast
    | cons c rest =>
      rw [valueFrom]
      · split
        · rename_i hx
          exact ih later following hx hlast
        · rename_i hx
          exact here (le_of_lt (not_le.mp hx))
      · exact List.cons_ne_nil _ _

/-- **A smooth curve stays in its interval at every time**, being level outside its knots. -/
theorem valueAt_mem {s : Set ℚ} [s.OrdConnected] {f : Interpolant ℚ}
    (leads : (f.first :: f.rest).IsChain Knot.Leads)
    (values : ∀ k ∈ f.first :: f.rest, k.value ∈ s) (x : ℚ) : f.valueAt x ∈ s := by
  unfold valueAt
  split
  · exact values _ List.mem_cons_self
  · rename_i inside
    split
    · exact values _ f.last_mem
    · rename_i before
      rw [not_or] at inside
      exact valueFrom_mem leads values (le_of_lt (not_le.mp inside.2)) (le_of_lt (not_le.mp before))

/-- The smooth curve has a knot at each point that the curve is drawn through. -/
theorem eq_knots_of_ofCurve? {c : Curve ℚ} {f : Interpolant ℚ} (h : ofCurve? c = some f) :
    f.first :: f.rest = knots (support c) := by
  show _ = List.zipWith _ (support c) (slopes (spans (support c)))
  unfold ofCurve? at h
  dsimp only at h
  split at h
  · cases h
  · rename_i k rest eq
    cases h
    exact eq.symm

theorem exists_ofCurve? {c : Curve ℚ} (h : c ≠ []) : ∃ f, ofCurve? c = some f := by
  have some_knot : knots (support c) ≠ [] := by
    intro none_left
    have points := map_point_knots (support c)
    rw [none_left, List.map_nil] at points
    exact support_ne_nil h points.symm
  unfold ofCurve?
  dsimp only
  split
  · rename_i none_left
    exact absurd none_left some_knot
  · exact ⟨_, rfl⟩

/-- The knots of a smooth curve lead on from one to the next. -/
theorem isChain_of_ofCurve? {c : Curve ℚ} {f : Interpolant ℚ} (h : ofCurve? c = some f) :
    (f.first :: f.rest).IsChain Knot.Leads := by
  rw [eq_knots_of_ofCurve? h]
  refine isChain_knots ((isChain_support c).imp fun p q clear => ?_)
  have pos : (0 : ℚ) < 0.000001 := by norm_num
  exact sub_pos.mp (lt_of_lt_of_le pos clear)

/-- The knots of a smooth curve have values of the curve. -/
theorem values_of_ofCurve? {s : Set ℚ} {c : Curve ℚ} {f : Interpolant ℚ}
    (h : ofCurve? c = some f) (values : ∀ p ∈ c, p.value ∈ s) :
    ∀ k ∈ f.first :: f.rest, k.value ∈ s := by
  intro k hk
  rw [eq_knots_of_ofCurve? h] at hk
  have point := List.mem_map_of_mem (f := Knot.point) hk
  rw [map_point_knots] at point
  exact support_values values _ point

end Interpolant

/-- **Drawing a curve smoothly keeps it in its interval.** -/
theorem Curve.Within.smooth? [ExactReading] {s : Set ℚ} [s.OrdConnected] {c : Curve ℚ}
    (h : c.Within s) (count : Nat) : ∃ d, c.smooth? count = some d ∧ d.Within s := by
  obtain ⟨f, hf⟩ := Interpolant.exists_ofCurve? h.nonempty
  have values := Interpolant.values_of_ofCurve? hf h.values
  refine ⟨_, by rw [Curve.smooth?, hf]; rfl, ?_, ?_⟩
  · refine List.ne_nil_of_length_pos ?_
    rw [List.length_map, List.length_range]
    omega
  · intro p hp
    obtain ⟨i, -, rfl⟩ := List.mem_map.mp hp
    dsimp only
    split
    · exact values _ List.mem_cons_self
    · split
      · exact values _ f.last_mem
      · exact Interpolant.valueAt_mem (Interpolant.isChain_of_ofCurve? hf) values _

end MovingLight
