import MovingLight.Proofs.Curve.Smooth

/-!
# Rising curves — a smooth curve turns only at its points

Between two knots a smooth curve goes from one value to the other without turning back:
its cubic goes a `weight` of the way that never shrinks while time passes
(`Interpolant.weight_le_weight`). A weight is a mean of four, those of level and of steep
slopes at the two ends, and each of the four is a polynomial that grows.

A direction is a factor `s` here, and values run *toward* `s` where `s` times them grows:
up for `1` and down for `-1`. What is said of rising curves so holds of falling ones, and
one induction along the knots serves both (`Interpolant.valueFrom_toward`).

Times outside the knots are read at the nearest one (`Interpolant.valueAt_eq`), which is
what makes a curve level there. The main statement, `Curve.smooth_never_turns`, puts
together what holds between two knots, outside them, and of the points that are drawn.
-/

namespace MovingLight

/-- The way from one value to another runs toward where the second value lies. -/
theorem Scalar.between_toward [ExactReading] {s p q u v : ℚ} (h : s * p ≤ s * q) (huv : u ≤ v) :
    s * between p q u ≤ s * between p q v := by
  unfold between
  linarith [mul_le_mul_of_nonneg_left huv (sub_nonneg.mpr h)]

namespace Interpolant

/-! ## Points that count -/

section

variable {α : Type} [Scalar α]

/-- A point counts if it has a finite time and a finite value. -/
def counts (p : CurvePoint α) : Bool := Scalar.isFinite p.t && Scalar.isFinite p.value

/-- **Points that do not count make no difference**, in whatever numbers a show is computed. -/
theorem ofCurve?_filter (c : Curve α) : ofCurve? (c.filter counts) = ofCurve? c := by
  have same : usable (c.filter counts) = usable c := by
    show ((c.filter counts).filter counts).mergeSort _ = (c.filter counts).mergeSort _
    rw [List.filter_filter]
    simp only [Bool.and_self]
  rw [ofCurve?, ofCurve?, support, support, same]

theorem support_eq_nil_iff {c : Curve α} : support c = [] ↔ ∀ p ∈ c, counts p = false := by
  have none_usable : usable c = [] ↔ ∀ p ∈ c, counts p = false := by
    show (c.filter counts).mergeSort _ = [] ↔ _
    rw [← List.length_eq_zero_iff, List.length_mergeSort, List.length_eq_zero_iff,
      List.filter_eq_nil_iff]
    simp only [Bool.not_eq_true]
  rw [← none_usable]
  unfold support
  split
  · rename_i none_left
    exact iff_of_true rfl none_left
  · rename_i first rest points
    obtain ⟨value, later, starts⟩ := exists_joined first rest
    rw [starts, points]
    exact iff_of_false (List.cons_ne_nil _ _) (List.cons_ne_nil _ _)

/-- **A curve can be drawn smoothly exactly if one of its points counts.** -/
theorem isSome_ofCurve?_iff (c : Curve α) : (ofCurve? c).isSome ↔ ∃ p ∈ c, counts p = true := by
  have slopes_ne : slopes (spans (support c)) ≠ [] := by
    refine List.ne_nil_of_length_pos ?_
    rw [length_slopes]
    exact Nat.succ_pos _
  have none_iff : ofCurve? c = none ↔ support c = [] := by
    unfold ofCurve?
    dsimp only
    split
    · rename_i no_knots
      exact iff_of_true rfl ((List.zipWith_eq_nil_iff.mp no_knots).resolve_right slopes_ne)
    · rename_i k rest knots
      refine iff_of_false (Option.some_ne_none _) fun none_left => ?_
      rw [none_left, List.zipWith_nil_left] at knots
      cases knots
  rw [Option.isSome_iff_ne_none, Ne, none_iff, support_eq_nil_iff]
  push Not
  simp only [Bool.not_eq_false]

end

/-! ## One cubic -/

/-- A weight is a mean of four: those for a level and for the steepest slope at either end. -/
theorem weight_eq_mean (k l u : ℚ) : weight k l u =
    (1 - k / 3) * (1 - l / 3) * weight 0 0 u + k / 3 * (1 - l / 3) * weight 3 0 u +
      (1 - k / 3) * (l / 3) * weight 0 3 u + k / 3 * (l / 3) * weight 3 3 u := by
  unfold weight
  ring

/-- Between two level ends the way that is gone grows. -/
theorem weight_level_le {u v : ℚ} (hu : 0 ≤ u) (huv : u ≤ v) (hv : v ≤ 1) :
    weight 0 0 u ≤ weight 0 0 v := by
  have hu' : 0 ≤ 1 - u := sub_nonneg.mpr (huv.trans hv)
  have hv' : 0 ≤ 1 - v := sub_nonneg.mpr hv
  have hv0 : 0 ≤ v := hu.trans huv
  have gain : 0 ≤ 2 * (u * (1 - u)) + 2 * (v * (1 - v)) + u * (1 - v) + v * (1 - u) := by
    positivity
  have gained : weight 0 0 v - weight 0 0 u =
      (v - u) * (2 * (u * (1 - u)) + 2 * (v * (1 - v)) + u * (1 - v) + v * (1 - u)) := by
    unfold weight
    ring
  rw [← sub_nonneg, gained]
  exact mul_nonneg (sub_nonneg.mpr huv) gain

/-- With the steepest slope at one end or at both, the way that is gone is a cube, and grows. -/
theorem weight_steep_le {u v : ℚ} (huv : u ≤ v) :
    weight 3 0 u ≤ weight 3 0 v ∧ weight 0 3 u ≤ weight 0 3 v ∧ weight 3 3 u ≤ weight 3 3 v := by
  have cubes : Monotone fun x : ℚ => x ^ 3 := (Odd.strictMono_pow (by decide)).monotone
  have leaving (x : ℚ) : weight 3 0 x = (x - 1) ^ 3 + 1 := by unfold weight; ring
  have arriving (x : ℚ) : weight 0 3 x = x ^ 3 := by unfold weight; ring
  have both (x : ℚ) : weight 3 3 x = ((2 * x - 1) ^ 3 + 1) / 2 := by unfold weight; ring
  refine ⟨?_, ?_, ?_⟩
  · have later : (u - 1) ^ 3 ≤ (v - 1) ^ 3 := cubes (by linarith)
    rw [leaving, leaving]
    linarith
  · rw [arriving, arriving]
    exact cubes huv
  · have later : (2 * u - 1) ^ 3 ≤ (2 * v - 1) ^ 3 := cubes (by linarith)
    rw [both, both]
    linarith

/-- **The way that is gone never shrinks**, whatever gentle slopes a cubic has at its ends. -/
theorem weight_le_weight {k l u v : ℚ} (hk : k ∈ Set.Icc (0 : ℚ) 3) (hl : l ∈ Set.Icc (0 : ℚ) 3)
    (hu : 0 ≤ u) (huv : u ≤ v) (hv : v ≤ 1) : weight k l u ≤ weight k l v := by
  have level := weight_level_le hu huv hv
  obtain ⟨leaving, arriving, both⟩ := weight_steep_le huv
  have hk0 : 0 ≤ k / 3 := by linarith [hk.1]
  have hk1 : 0 ≤ 1 - k / 3 := by linarith [hk.2]
  have hl0 : 0 ≤ l / 3 := by linarith [hl.1]
  have hl1 : 0 ≤ 1 - l / 3 := by linarith [hl.2]
  rw [weight_eq_mean k l u, weight_eq_mean k l v]
  gcongr

/-- Knots come one after another. -/
theorem le_of_mem {a b : Knot ℚ} {rest : List (Knot ℚ)} (leads : (a :: rest).IsChain Knot.Leads)
    (hb : b ∈ a :: rest) : a.t ≤ b.t := by
  induction rest generalizing a with
  | nil => rw [List.mem_singleton.mp hb]
  | cons c rest ih =>
    obtain ⟨hac, later⟩ := List.isChain_cons_cons.mp leads
    rcases List.mem_cons.mp hb with rfl | hb
    · exact le_rfl
    · exact hac.lt.le.trans (ih later hb)

/-- No knot comes after the last one. -/
theorem le_last_of_mem {a b : Knot ℚ} {rest : List (Knot ℚ)}
    (leads : (a :: rest).IsChain Knot.Leads) (hb : b ∈ a :: rest) :
    b.t ≤ (rest.getLastD a).t := by
  induction rest generalizing a b with
  | nil => rw [List.mem_singleton.mp hb, List.getLastD_nil]
  | cons c rest ih =>
    obtain ⟨hac, later⟩ := List.isChain_cons_cons.mp leads
    rw [List.getLastD_cons]
    rcases List.mem_cons.mp hb with rfl | hb
    · exact hac.lt.le.trans (ih later List.mem_cons_self)
    · exact ih later hb

variable [ExactReading] {a b : Knot ℚ} {rest : List (Knot ℚ)} {s x y : ℚ}

theorem cubic_first (h : a.Leads b) : cubic a b a.t = a.value := by
  obtain ⟨k, -, leaving⟩ := h.leaving
  obtain ⟨l, -, arriving⟩ := h.arriving
  have begun : weight k l 0 = 0 := by unfold weight; ring
  rw [cubic_eq_between h.lt leaving arriving, sub_self, zero_div, begun]
  unfold Scalar.between
  ring

theorem cubic_last (h : a.Leads b) : cubic a b b.t = b.value := by
  obtain ⟨k, -, leaving⟩ := h.leaving
  obtain ⟨l, -, arriving⟩ := h.arriving
  have gone : weight k l 1 = 1 := by unfold weight; ring
  rw [cubic_eq_between h.lt leaving arriving, div_self (sub_pos.mpr h.lt).ne', gone]
  unfold Scalar.between
  ring

/-- **Between two knots of which one leads to the other, the cubic does not turn.** -/
theorem cubic_toward (h : a.Leads b) (toward : s * a.value ≤ s * b.value) (hx : a.t ≤ x)
    (hxy : x ≤ y) (hy : y ≤ b.t) : s * cubic a b x ≤ s * cubic a b y := by
  obtain ⟨k, hk, leaving⟩ := h.leaving
  obtain ⟨l, hl, arriving⟩ := h.arriving
  have width : 0 < b.t - a.t := sub_pos.mpr h.lt
  rw [cubic_eq_between h.lt leaving arriving, cubic_eq_between h.lt leaving arriving]
  refine Scalar.between_toward toward (weight_le_weight hk hl ?_ ?_ ?_)
  · exact div_nonneg (sub_nonneg.mpr hx) width.le
  · gcongr
  · rw [div_le_one width]
    linarith

/-! ## From the first knot to the last -/

theorem valueFrom_first (leads : (a :: rest).IsChain Knot.Leads) :
    valueFrom a.t a rest = a.value := by
  match rest, leads with
  | [], _ => rfl
  | [b], leads => exact cubic_first (List.isChain_cons_cons.mp leads).1
  | b :: c :: rest, leads =>
    have hab := (List.isChain_cons_cons.mp leads).1
    rw [valueFrom, if_neg (not_le.mpr hab.lt)]
    · exact cubic_first hab
    · exact List.cons_ne_nil _ _

/-- Past a knot, the rest of the curve is read, and at the knot already. -/
theorem valueFrom_later {c : Knot ℚ} (hx : b.t ≤ x) :
    valueFrom x a (b :: c :: rest) = valueFrom x b (c :: rest) := by
  rw [valueFrom, if_pos hx]
  exact List.cons_ne_nil _ _

/-- **Before the next knot, the cubic is read**, and at the knot still. -/
theorem valueFrom_here (leads : (a :: b :: rest).IsChain Knot.Leads) (hx : x ≤ b.t) :
    valueFrom x a (b :: rest) = cubic a b x := by
  obtain ⟨hab, later⟩ := List.isChain_cons_cons.mp leads
  cases rest with
  | nil => rfl
  | cons c rest =>
    rcases hx.lt_or_eq with before | rfl
    · rw [valueFrom, if_neg (not_le.mpr before)]
      exact List.cons_ne_nil _ _
    · rw [valueFrom_later le_rfl, valueFrom_first later, cubic_last hab]

theorem valueFrom_last (leads : (a :: rest).IsChain Knot.Leads) :
    valueFrom (rest.getLastD a).t a rest = (rest.getLastD a).value := by
  induction rest generalizing a with
  | nil => rfl
  | cons b rest ih =>
    obtain ⟨hab, later⟩ := List.isChain_cons_cons.mp leads
    rw [List.getLastD_cons]
    cases rest with
    | nil => exact cubic_last hab
    | cons c rest =>
      rw [valueFrom_later (le_of_mem later List.getLastD_mem_cons)]
      exact ih later

/-- **Between two neighbouring knots their cubic is read**, wherever they stand. -/
theorem valueFrom_eq_cubic {k : Knot ℚ} (leads : (k :: rest).IsChain Knot.Leads)
    (neighbours : [a, b] <:+: k :: rest) (hx : x ∈ Set.Icc a.t b.t) :
    valueFrom x k rest = cubic a b x := by
  induction rest generalizing k with
  | nil =>
    have short := neighbours.length_le
    simp at short
  | cons c rest ih =>
    rcases List.infix_cons_iff.mp neighbours with here | later
    · obtain ⟨rfl, tail⟩ := List.cons_prefix_cons.mp here
      obtain ⟨rfl, -⟩ := List.cons_prefix_cons.mp tail
      exact valueFrom_here leads hx.2
    · obtain ⟨-, rest_leads⟩ := List.isChain_cons_cons.mp leads
      have among : a ∈ c :: rest := later.subset List.mem_cons_self
      have reached : c.t ≤ x := (le_of_mem rest_leads among).trans hx.1
      cases rest with
      | nil =>
        have short := later.length_le
        simp at short
      | cons d rest =>
        rw [valueFrom_later reached]
        exact ih rest_leads later

/-- **A curve whose knots run toward a direction does so throughout.** The induction is on the knots
that follow; at a knot between two times the first part ends where the second begins. -/
theorem valueFrom_toward (leads : (a :: rest).IsChain Knot.Leads)
    (toward : (a :: rest).IsChain fun a b => s * a.value ≤ s * b.value) (hx : a.t ≤ x)
    (hxy : x ≤ y) (hy : y ≤ (rest.getLastD a).t) :
    s * valueFrom x a rest ≤ s * valueFrom y a rest := by
  induction rest generalizing a x with
  | nil => exact le_rfl
  | cons b rest ih =>
    obtain ⟨hab, later⟩ := List.isChain_cons_cons.mp leads
    obtain ⟨step, later_toward⟩ := List.isChain_cons_cons.mp toward
    rw [List.getLastD_cons] at hy
    have within {y : ℚ} (hxy : x ≤ y) (hy : y ≤ b.t) :
        s * valueFrom x a (b :: rest) ≤ s * valueFrom y a (b :: rest) := by
      rw [valueFrom_here leads (hxy.trans hy), valueFrom_here leads hy]
      exact cubic_toward hab step hx hxy hy
    rcases le_total y b.t with before | after
    · exact within hxy before
    · cases rest with
      | nil => exact within hxy hy
      | cons c rest =>
        rw [valueFrom_later after]
        rcases le_total x b.t with across | beyond
        · calc s * valueFrom x a (b :: c :: rest) ≤ s * valueFrom b.t a (b :: c :: rest) :=
                within across le_rfl
            _ = s * valueFrom b.t b (c :: rest) := by rw [valueFrom_later le_rfl]
            _ ≤ s * valueFrom y b (c :: rest) := ih later later_toward le_rfl after hy
        · rw [valueFrom_later beyond]
          exact ih later later_toward beyond hxy hy

/-! ## A whole curve -/

variable {f : Interpolant ℚ}

/-- **A time outside the knots is read at the nearest one.** -/
theorem valueAt_eq (leads : (f.first :: f.rest).IsChain Knot.Leads) (x : ℚ) :
    f.valueAt x = valueFrom (max f.first.t (min x f.last.t)) f.first f.rest := by
  have ordered : f.first.t ≤ f.last.t := le_of_mem leads f.last_mem
  unfold valueAt
  split
  · rename_i outside
    rcases outside with alone | before
    · rw [List.isEmpty_iff.mp alone]
      rfl
    · rw [max_eq_left ((min_le_left _ _).trans before), valueFrom_first leads]
  · rename_i inside
    rw [not_or, not_le] at inside
    split
    · rename_i after
      rw [min_eq_right after, max_eq_right ordered]
      exact (valueFrom_last leads).symm
    · rename_i before
      rw [min_eq_left (not_le.mp before).le, max_eq_right inside.2.le]

theorem valueAt_of_le (leads : (f.first :: f.rest).IsChain Knot.Leads) (hx : x ≤ f.first.t) :
    f.valueAt x = f.first.value := by
  rw [valueAt_eq leads, max_eq_left ((min_le_left _ _).trans hx), valueFrom_first leads]

theorem valueAt_of_ge (leads : (f.first :: f.rest).IsChain Knot.Leads) (hx : f.last.t ≤ x) :
    f.valueAt x = f.last.value := by
  rw [valueAt_eq leads, min_eq_right hx, max_eq_right (le_of_mem leads f.last_mem)]
  exact valueFrom_last leads

/-- Between two neighbouring knots a smooth curve is their cubic. -/
theorem valueAt_eq_cubic (leads : (f.first :: f.rest).IsChain Knot.Leads)
    (neighbours : [a, b] <:+: f.first :: f.rest) (hx : x ∈ Set.Icc a.t b.t) :
    f.valueAt x = cubic a b x := by
  have from_first : f.first.t ≤ x :=
    (le_of_mem leads (neighbours.subset List.mem_cons_self)).trans hx.1
  have to_last : x ≤ f.last.t :=
    hx.2.trans (le_last_of_mem leads (neighbours.subset (List.mem_cons_of_mem _ List.mem_cons_self)))
  rw [valueAt_eq leads, min_eq_left to_last, max_eq_right from_first]
  exact valueFrom_eq_cubic leads neighbours hx

theorem valueAt_toward (leads : (f.first :: f.rest).IsChain Knot.Leads)
    (toward : (f.first :: f.rest).IsChain fun a b => s * a.value ≤ s * b.value) (hxy : x ≤ y) :
    s * f.valueAt x ≤ s * f.valueAt y := by
  have ordered : f.first.t ≤ f.last.t := le_of_mem leads f.last_mem
  rw [valueAt_eq leads, valueAt_eq leads]
  refine valueFrom_toward leads toward (le_max_left _ _) ?_ (max_le ordered (min_le_right _ _))
  gcongr

/-- **Between two neighbouring knots** a smooth curve lies between their values and runs from one to
the other. -/
theorem shape_between (leads : (f.first :: f.rest).IsChain Knot.Leads)
    (neighbours : [a, b] <:+: f.first :: f.rest) :
    a.t < b.t ∧ (∀ x ∈ Set.Icc a.t b.t, f.valueAt x ∈ Set.uIcc a.value b.value) ∧
      (a.value ≤ b.value → MonotoneOn f.valueAt (Set.Icc a.t b.t)) ∧
      (b.value ≤ a.value → AntitoneOn f.valueAt (Set.Icc a.t b.t)) := by
  have pair : [a, b].IsChain Knot.Leads := List.IsChain.infix leads neighbours
  have hab : a.Leads b := List.isChain_pair.mp pair
  have runs {s : ℚ} (toward : s * a.value ≤ s * b.value) :
      ∀ x ∈ Set.Icc a.t b.t, ∀ y ∈ Set.Icc a.t b.t, x ≤ y →
        s * f.valueAt x ≤ s * f.valueAt y := by
    intro x hx y hy hxy
    rw [valueAt_eq_cubic leads neighbours hx, valueAt_eq_cubic leads neighbours hy]
    exact cubic_toward hab toward hx.1 hxy hy.2
  refine ⟨hab.lt, fun x hx => ?_, fun rising x hx y hy hxy => ?_, fun falling x hx y hy hxy => ?_⟩
  · rw [valueAt_eq_cubic leads neighbours hx]
    exact cubic_mem_uIcc hab hx
  · simpa using runs (s := 1) (by simpa using rising) x hx y hy hxy
  · simpa using runs (s := -1) (by simpa using falling) x hx y hy hxy

/-! ## Drawing points -/

/-- The value drawn at one of so many even times: the first and the last value at the ends, wherever
their knots lie. -/
def drawnAt (f : Interpolant ℚ) (count i : Nat) : ℚ :=
  if i = 0 then f.first.value
  else if i = count - 1 then f.last.value
  else f.valueAt (Scalar.evenTime i count)

/-- **The values drawn of a curve run toward where its knots do.** -/
theorem drawnAt_toward (leads : (f.first :: f.rest).IsChain Knot.Leads)
    (toward : (f.first :: f.rest).IsChain fun a b => s * a.value ≤ s * b.value) {count i j : Nat}
    (hij : i < j) (hj : j < count) : s * f.drawnAt count i ≤ s * f.drawnAt count j := by
  have from_first (x : ℚ) : s * f.first.value ≤ s * f.valueAt x := by
    rw [← valueAt_of_le leads (min_le_right x f.first.t)]
    exact valueAt_toward leads toward (min_le_left _ _)
  have to_last (x : ℚ) : s * f.valueAt x ≤ s * f.last.value := by
    rw [← valueAt_of_ge leads (le_max_right x f.last.t)]
    exact valueAt_toward leads toward (le_max_left _ _)
  unfold drawnAt
  rw [if_neg (show j ≠ 0 by omega), if_neg (show i ≠ count - 1 by omega)]
  split
  · split
    · exact (from_first 0).trans (to_last 0)
    · exact from_first _
  · split
    · exact to_last _
    · exact valueAt_toward leads toward (Scalar.evenTime_le hij.le count)

end Interpolant

section

variable [ExactReading] {c : Curve ℚ}

/-- Drawing a curve is drawing its values at even times. -/
theorem Curve.smooth?_eq {f : Interpolant ℚ} (h : Interpolant.ofCurve? c = some f) (count : Nat) :
    c.smooth? count = some ((List.range (max count 2)).map fun i =>
      ⟨Scalar.evenTime i (max count 2), f.drawnAt (max count 2) i⟩) := by
  rw [Curve.smooth?, h]
  rfl

/-- What is drawn of a curve runs toward where its knots do. -/
theorem Curve.drawn_toward {f : Interpolant ℚ} {s : ℚ} (h : Interpolant.ofCurve? c = some f)
    (toward : (f.first :: f.rest).IsChain fun a b => s * a.value ≤ s * b.value) {count : Nat}
    {d : Curve ℚ} (drawn : c.smooth? count = some d) :
    d.Pairwise fun p q => s * p.value ≤ s * q.value := by
  rw [Curve.smooth?_eq h] at drawn
  obtain rfl := Option.some.inj drawn
  rw [List.pairwise_map]
  refine List.pairwise_lt_range.imp_of_mem fun {i j} _ hj hij => ?_
  have leads := Interpolant.isChain_of_ofCurve? h
  exact Interpolant.drawnAt_toward leads toward hij (List.mem_range.mp hj)

/-- Whatever is drawn of a curve lies between two of its values. -/
theorem Curve.exists_smooth?_between (h : c ≠ []) (count : Nat) :
    ∃ d, c.smooth? count = some d ∧
      ∀ p ∈ d, ∃ low ∈ c, ∃ high ∈ c, p.value ∈ Set.Icc low.value high.value := by
  let between : Set ℚ := {v | ∃ low ∈ c, ∃ high ∈ c, v ∈ Set.Icc low.value high.value}
  have connected : between.OrdConnected := by
    constructor
    rintro x ⟨low, hlow, _, _, hx⟩ y ⟨_, _, high, hhigh, hy⟩ z hz
    exact ⟨low, hlow, high, hhigh, hx.1.trans hz.1, hz.2.trans hy.2⟩
  have within : c.Within between := ⟨h, fun p hp => ⟨p, hp, p, hp, le_rfl, le_rfl⟩⟩
  obtain ⟨d, drawn, values⟩ := within.smooth? count
  exact ⟨d, drawn, values.values⟩

end

/-- **A smooth curve turns only at its points.** Points that do not count make no difference, in
whatever numbers, and a curve of which one counts can be drawn. Read exactly, it has a knot at
each point it is drawn through; between two neighbouring knots it lies between their values and
runs from one to the other; outside the knots it is level. What is drawn of it lies between two
values of its points, and rises or falls throughout if the knots do. -/
theorem Curve.smooth_never_turns [ExactReading] :
    (∀ (α : Type) [Scalar α] (d : Curve α),
      Interpolant.ofCurve? (d.filter Interpolant.counts) = Interpolant.ofCurve? d ∧
      ((Interpolant.ofCurve? d).isSome ↔ ∃ p ∈ d, Interpolant.counts p = true)) ∧
    ∀ c : Curve ℚ, (∃ p ∈ c, Interpolant.counts p = true) →
      ∃ f, Interpolant.ofCurve? c = some f ∧
        (f.first :: f.rest).map Knot.point = Interpolant.support c ∧
        (∀ a b, [a, b] <:+: f.first :: f.rest → a.t < b.t ∧
          (∀ x ∈ Set.Icc a.t b.t, f.valueAt x ∈ Set.uIcc a.value b.value) ∧
          (a.value ≤ b.value → MonotoneOn f.valueAt (Set.Icc a.t b.t)) ∧
          (b.value ≤ a.value → AntitoneOn f.valueAt (Set.Icc a.t b.t))) ∧
        (∀ x, x ≤ f.first.t → f.valueAt x = f.first.value) ∧
        (∀ x, f.last.t ≤ x → f.valueAt x = f.last.value) ∧
        ∀ count, ∃ d, c.smooth? count = some d ∧
          (∀ p ∈ d, ∃ low ∈ c, ∃ high ∈ c, p.value ∈ Set.Icc low.value high.value) ∧
          ((f.first :: f.rest).IsChain (fun a b => a.value ≤ b.value) →
            d.Pairwise fun p q => p.value ≤ q.value) ∧
          ((f.first :: f.rest).IsChain (fun a b => b.value ≤ a.value) →
            d.Pairwise fun p q => q.value ≤ p.value) := by
  refine ⟨fun α _ d => ⟨Interpolant.ofCurve?_filter d, Interpolant.isSome_ofCurve?_iff d⟩,
    fun c counted => ?_⟩
  obtain ⟨f, hf⟩ := Option.isSome_iff_exists.mp ((Interpolant.isSome_ofCurve?_iff c).mpr counted)
  have leads := Interpolant.isChain_of_ofCurve? hf
  have nonempty : c ≠ [] := List.ne_nil_of_mem counted.choose_spec.1
  refine ⟨f, hf, ?_, fun a b neighbours => ?_, fun x hx => Interpolant.valueAt_of_le leads hx,
    fun x hx => Interpolant.valueAt_of_ge leads hx, fun count => ?_⟩
  · rw [Interpolant.eq_knots_of_ofCurve? hf, Interpolant.map_point_knots]
  · exact Interpolant.shape_between leads neighbours
  · obtain ⟨d, drawn, between⟩ := Curve.exists_smooth?_between nonempty count
    refine ⟨d, drawn, between, fun rising => ?_, fun falling => ?_⟩
    · have up := Curve.drawn_toward (s := 1) hf (by simpa using rising) drawn
      simpa using up
    · have down := Curve.drawn_toward (s := -1) hf (by simpa using falling) drawn
      simpa using down

/-- Points in no order, two of them at one time. -/
theorem Curve.smooth_never_turns_of_unsorted :
    letI := ExactReading.parabolic
    let c : Curve ℚ := [⟨1, 90⟩, ⟨0, 10⟩, ⟨0.6, 200⟩, ⟨0.6, 180⟩]
    (∃ p ∈ c, Interpolant.counts p = true) ∧
      ∃ f, Interpolant.ofCurve? c = some f ∧
        (∀ a b, [a, b] <:+: f.first :: f.rest → b.value ≤ a.value →
          AntitoneOn f.valueAt (Set.Icc a.t b.t)) ∧
        (∀ x, f.last.t ≤ x → f.valueAt x = f.last.value) ∧
        ∀ count, ∃ d, c.smooth? count = some d ∧ ∀ p ∈ d, p.value ∈ Set.Icc (10 : ℚ) 200 := by
  intro c
  let reading := ExactReading.parabolic
  have counted : ∃ p ∈ c, Interpolant.counts p = true := ⟨⟨1, 90⟩, List.mem_cons_self, rfl⟩
  have bounds : ∀ p ∈ c, p.value ∈ Set.Icc (10 : ℚ) 200 := by
    intro p hp
    simp only [c, List.mem_cons, List.not_mem_nil, or_false] at hp
    rcases hp with rfl | rfl | rfl | rfl <;> constructor <;> norm_num
  obtain ⟨f, hf, -, neighbours, -, level, drawn⟩ := Curve.smooth_never_turns.2 c counted
  refine ⟨counted, f, hf, fun a b next => (neighbours a b next).2.2.2, level, fun count => ?_⟩
  obtain ⟨d, hd, between, -⟩ := drawn count
  refine ⟨d, hd, fun p hp => ?_⟩
  obtain ⟨low, hlow, high, hhigh, hp⟩ := between p hp
  exact ⟨(bounds low hlow).1.trans hp.1, hp.2.trans (bounds high hhigh).2⟩

end MovingLight
