import MovingLight.Channel
import MovingLight.Proofs.Curve.Reading

/-!
# Trimming — the leading part of a channel

An effect that is cut short keeps the leading part of what it does, stretched over its new
length: at a time `t` it shows what it showed at `t * ratio` before
(`ChannelValue.truncated_keeps`). A level has nothing to stretch. A wave is written out in
points, and agrees at their times.

A curve agrees at every time, and trimming it comes to two steps (`Curve.truncated_eq`). Cutting
puts a point where the cut is and drops what comes after; the point lies on the curve, so up to
the cut nothing changes (`Curve.valueAt_cutAt`). Stretching moves every point by one factor, and
with them what lies between them (`Curve.valueAt_stretched`). For both the points have to be
clear of each other, the cut among them: between points that are closer a curve jumps, and what
is stretched jumps elsewhere.
-/

namespace MovingLight

/-! ## Lines, stretched and cut -/

namespace CurvePoint

/-- A point with its time stretched. -/
def stretched (ratio : ℚ) (p : CurvePoint ℚ) : CurvePoint ℚ := ⟨p.t / ratio, p.value⟩

variable {p n : CurvePoint ℚ} {ratio t : ℚ}

/-- The line between two stretched points is the line between the points, read at the time before
stretching. -/
theorem line_stretched (positive : 0 < ratio) (h : p.t < n.t) :
    (p.stretched ratio).line (n.stretched ratio) t = p.line n (t * ratio) := by
  have ahead : n.t - p.t ≠ 0 := sub_ne_zero.mpr h.ne'
  have ahead' : n.t / ratio - p.t / ratio ≠ 0 := by
    rw [← sub_div]
    exact div_ne_zero ahead positive.ne'
  have fraction : (t - p.t / ratio) / (n.t / ratio - p.t / ratio) =
      (t * ratio - p.t) / (n.t - p.t) := by
    rw [div_eq_div_iff ahead' ahead]
    field_simp
  unfold line stretched
  dsimp only
  rw [fraction]

/-- Stretching leaves points that are clear of each other clear. -/
theorem clear_stretched (positive : 0 < ratio) (short : ratio ≤ 1)
    (h : Interpolant.Clear p n) : Interpolant.Clear (p.stretched ratio) (n.stretched ratio) := by
  have apart : (0.000001 : ℚ) ≤ n.t - p.t := h
  show (0.000001 : ℚ) ≤ n.t / ratio - p.t / ratio
  rw [← sub_div, le_div_iff₀ positive]
  calc (0.000001 : ℚ) * ratio ≤ 0.000001 := mul_le_of_le_one_right (by norm_num) short
    _ ≤ n.t - p.t := apart

/-- **A line up to a point on it is the line.** -/
theorem line_cut {r : ℚ} (h : p.t < r) (h' : p.t < n.t) :
    p.line ⟨r, p.line n r⟩ t = p.line n t := by
  have cut : r - p.t ≠ 0 := sub_ne_zero.mpr h.ne'
  have ahead : n.t - p.t ≠ 0 := sub_ne_zero.mpr h'.ne'
  unfold line
  field_simp
  ring

/-- A line between two points of one value is level. -/
theorem line_level (r : ℚ) : p.line ⟨r, p.value⟩ t = p.value := by
  unfold line
  ring

end CurvePoint

namespace Curve

variable {c : Curve ℚ} {p n : CurvePoint ℚ} {rest : List (CurvePoint ℚ)} {ratio t u : ℚ}

/-! ## The points before a cut -/

/-- The points of a curve before a cut. -/
def before (ratio : ℚ) (c : Curve ℚ) : Curve ℚ := c.filter fun p => p.t < ratio

theorem before_of_lt (h : n.t < ratio) : before ratio (n :: rest) = n :: before ratio rest :=
  List.filter_cons_of_pos (decide_eq_true h)

/-- Where times increase, no point after the cut is followed by one before it. -/
theorem before_of_le (clear : (n :: rest).IsChain Interpolant.Clear) (h : ratio ≤ n.t) :
    before ratio (n :: rest) = [] := by
  have ordered := (List.pairwise_cons.mp (pairwise_of_clear clear)).1
  refine List.filter_eq_nil_iff.mpr fun q hq early => ?_
  have early : q.t < ratio := of_decide_eq_true early
  rcases List.mem_cons.mp hq with rfl | hq
  · exact not_le.mpr early h
  · exact not_le.mpr early (h.trans (ordered q hq).le)

variable [ExactReading]

/-! ## Stretching a curve -/

/-- A curve with its times stretched. -/
def stretched (ratio : ℚ) (c : Curve ℚ) : Curve ℚ := c.map (·.stretched ratio)

theorem valueAfter_stretched (positive : 0 < ratio) (short : ratio ≤ 1)
    (clear : (p :: rest).IsChain Interpolant.Clear) (h : p.t ≤ t * ratio) :
    valueAfter t (p.stretched ratio) (stretched ratio rest) = valueAfter (t * ratio) p rest := by
  induction rest generalizing p with
  | nil => rfl
  | cons n rest ih =>
    obtain ⟨here, later⟩ := List.isChain_cons_cons.mp clear
    have passed : (p.stretched ratio).t ≤ t := (div_le_iff₀ positive).mpr h
    show valueAfter t (p.stretched ratio) (n.stretched ratio :: stretched ratio rest) = _
    rcases le_or_gt (t * ratio) n.t with reached | before
    · have reached' : t ≤ (n.stretched ratio).t := (le_div_iff₀ positive).mpr reached
      have ordered := List.rel_of_pairwise_cons (pairwise_of_clear clear) List.mem_cons_self
      rw [valueAfter_of_clear (CurvePoint.clear_stretched positive short here) passed reached',
        valueAfter_of_clear here h reached]
      exact CurvePoint.line_stretched positive ordered
    · have before' : (n.stretched ratio).t < t := (div_lt_iff₀ positive).mpr before
      rw [valueAfter_of_lt before, valueAfter_of_lt before']
      exact ih later before.le

/-- **A stretched curve is read at the time before stretching.** -/
theorem valueAt_stretched (positive : 0 < ratio) (short : ratio ≤ 1)
    (clear : c.IsChain Interpolant.Clear) :
    (stretched ratio c).valueAt t = c.valueAt (t * ratio) := by
  cases c with
  | nil => rfl
  | cons first rest =>
    have level : t ≤ (first.stretched ratio).t ↔ t * ratio ≤ first.t := le_div_iff₀ positive
    show (if t ≤ (first.stretched ratio).t then first.value else
        valueAfter t (first.stretched ratio) (stretched ratio rest)) =
      if t * ratio ≤ first.t then first.value else valueAfter (t * ratio) first rest
    by_cases before : t * ratio ≤ first.t
    · rw [if_pos before, if_pos (level.mpr before)]
    · rw [if_neg before, if_neg (level.not.mpr before)]
      exact valueAfter_stretched positive short clear (not_le.mp before).le

/-! ## Cutting a curve -/

/-- The points of a curve before a cut, and the point of the curve at the cut. -/
def cutAt (ratio : ℚ) (c : Curve ℚ) : Curve ℚ := before ratio c ++ [⟨ratio, c.valueAt ratio⟩]

/-- **Past a point before the cut nothing changes up to the cut.** The induction is on the points
that follow, for any point they follow; `last` says that the last point kept is clear of the cut. -/
theorem valueAfter_cutAt (clear : (p :: rest).IsChain Interpolant.Clear) (hp : p.t < ratio)
    (last : ∀ q ∈ (p :: before ratio rest).getLast?, 0.000001 ≤ ratio - q.t)
    (h : p.t ≤ u) (h' : u ≤ ratio) :
    valueAfter u p (before ratio rest ++ [⟨ratio, valueAfter ratio p rest⟩]) =
      valueAfter u p rest := by
  induction rest generalizing p with
  | nil =>
    have far : Interpolant.Clear p ⟨ratio, p.value⟩ := last p rfl
    show valueAfter u p [⟨ratio, p.value⟩] = p.value
    rw [valueAfter_of_clear far h h']
    exact CurvePoint.line_level ratio
  | cons n rest ih =>
    obtain ⟨here, later⟩ := List.isChain_cons_cons.mp clear
    have ordered := List.rel_of_pairwise_cons (pairwise_of_clear clear) List.mem_cons_self
    rcases lt_or_ge n.t ratio with kept | dropped
    · rw [before_of_lt kept] at last ⊢
      rw [valueAfter_of_lt kept, List.cons_append]
      rcases le_or_gt u n.t with reached | passed
      · rw [valueAfter_of_clear here h reached, valueAfter_of_clear here h reached]
      · rw [valueAfter_of_lt passed, valueAfter_of_lt passed]
        refine ih later kept (fun q hq => last q ?_) passed.le
        rwa [List.getLast?_cons_cons]
    · rw [before_of_le later dropped] at last ⊢
      have far (value : ℚ) : Interpolant.Clear p ⟨ratio, value⟩ := last p rfl
      rw [List.nil_append, valueAfter_of_clear here hp.le dropped,
        valueAfter_of_clear (far _) h h', valueAfter_of_clear here h (h'.trans dropped)]
      exact CurvePoint.line_cut hp ordered

/-- **A curve that is cut is what it was up to the cut.** -/
theorem valueAt_cutAt (nonempty : c ≠ []) (clear : c.IsChain Interpolant.Clear)
    (last : ∀ q ∈ (before ratio c).getLast?, 0.000001 ≤ ratio - q.t) (h : u ≤ ratio) :
    (cutAt ratio c).valueAt u = c.valueAt u := by
  cases c with
  | nil => exact absurd rfl nonempty
  | cons first rest =>
    unfold cutAt
    rcases lt_or_ge first.t ratio with kept | dropped
    · have cut : valueAt (first :: rest) ratio = valueAfter ratio first rest :=
        if_neg (not_le.mpr kept)
      rw [before_of_lt kept] at last ⊢
      rw [cut, List.cons_append]
      show (if u ≤ first.t then first.value else valueAfter u first _) =
        if u ≤ first.t then first.value else valueAfter u first rest
      by_cases level : u ≤ first.t
      · rw [if_pos level, if_pos level]
      · rw [if_neg level, if_neg level]
        exact valueAfter_cutAt clear kept last (not_le.mp level).le h
    · have cut : valueAt (first :: rest) ratio = first.value := if_pos dropped
      have level : valueAt (first :: rest) u = first.value := if_pos (h.trans dropped)
      rw [before_of_le clear dropped, cut, level]
      exact if_pos h

/-- Cutting leaves points clear of each other. -/
theorem isChain_cutAt (clear : c.IsChain Interpolant.Clear)
    (last : ∀ q ∈ (before ratio c).getLast?, 0.000001 ≤ ratio - q.t) :
    (cutAt ratio c).IsChain Interpolant.Clear := by
  have kept : (before ratio c).IsChain Interpolant.Clear :=
    ((List.isChain_iff_pairwise.mp clear).filter _).isChain
  refine List.isChain_append.mpr ⟨kept, .singleton _, fun q hq cut hcut => ?_⟩
  obtain rfl := Option.mem_some_iff.mp hcut
  exact last q hq

/-! ## Trimming a curve -/

/-- **To trim a curve is to cut it and to stretch what is left.** -/
theorem truncated_eq (nonempty : c ≠ []) (h : Scalar.epsilon < ratio) :
    c.truncated ratio = stretched ratio (cutAt ratio c) := by
  have positive : 0 < ratio := lt_trans (by norm_num [Scalar.epsilon]) h
  have value : c.valueAt? ratio = some (c.valueAt ratio) := by
    cases c with
    | nil => exact absurd rfl nonempty
    | cons first rest => rfl
  have cut : CurvePoint.stretched ratio ⟨ratio, c.valueAt ratio⟩ = ⟨1, c.valueAt ratio⟩ := by
    rw [CurvePoint.stretched, div_self positive.ne']
  unfold truncated stretched cutAt
  rw [value, List.map_append, List.map_singleton, cut]
  exact if_neg (not_le.mpr h)

/-- **A trimmed curve has the values of its leading part.** -/
theorem valueAt_truncated (clear : c.IsChain Interpolant.Clear)
    (last : ∀ q ∈ (before ratio c).getLast?, 0.000001 ≤ ratio - q.t) (h : Scalar.epsilon < ratio)
    (short : ratio ≤ 1) (ht : t ≤ 1) : (c.truncated ratio).valueAt t = c.valueAt (t * ratio) := by
  have positive : 0 < ratio := lt_trans (by norm_num [Scalar.epsilon]) h
  rcases eq_or_ne c [] with rfl | nonempty
  · rfl
  · have inside : t * ratio ≤ ratio := mul_le_of_le_one_left positive.le ht
    rw [truncated_eq nonempty h, valueAt_stretched positive short (isChain_cutAt clear last),
      valueAt_cutAt nonempty clear last inside]

end Curve

/-! ## The leading part of a channel -/

namespace ChannelValue

variable [ExactReading] {ratio : ℚ}

/-- Between nothing and all, a part is taken as it is. -/
theorem truncated_of_inside (v : ChannelValue ℚ) (h : 0 ≤ ratio) (h' : ratio < 1 - 0.000001)
    (count : Nat) : v.truncated ratio count =
      match v with
      | hold level => hold level
      | wave w => curve (Curve.sampled count fun t => w.sample (t * ratio))
      | curve c => curve (c.truncated ratio) := by
  have inside : Scalar.clampUnit ratio = ratio :=
    Scalar.clamp_of_mem ⟨h, h'.le.trans (by norm_num)⟩
  unfold truncated
  dsimp only
  rw [inside, if_neg (not_le.mpr h')]
  cases v <;> rfl

/-- **A trimmed channel keeps the values it had**, at every time where it runs along points that are
clear of each other and of the cut, and at the times of its points where it was a wave. A level
stays as it is. -/
theorem truncated_keeps (h : Scalar.epsilon < ratio) (h' : ratio < 1 - 0.000001) (count : Nat) :
    (∀ c : Curve ℚ, c.IsChain Interpolant.Clear →
      (∀ p ∈ (c.filter fun p => p.t < ratio).getLast?, 0.000001 ≤ ratio - p.t) →
      ∀ t ∈ Set.Icc (0 : ℚ) 1,
        ((curve c).truncated ratio count).valueAt t = (curve c).valueAt (t * ratio)) ∧
    (∀ w : Wave ℚ, ∃ d, (wave w).truncated ratio count = curve d ∧ d.length = max count 2 ∧
      ∀ i < max count 2,
        let t := Scalar.evenTime i (max count 2)
        d[i]? = some ⟨t, w.sample (t * ratio)⟩ ∧ d.valueAt t = w.sample (t * ratio)) ∧
    ∀ level, (hold level).truncated ratio count = hold level := by
  have positive : 0 ≤ ratio := le_trans (by norm_num [Scalar.epsilon]) h.le
  have short : ratio ≤ 1 := h'.le.trans (by norm_num)
  refine ⟨fun c clear last t ht => ?_, fun w => ?_, fun level => ?_⟩
  · rw [truncated_of_inside _ positive h']
    exact Curve.valueAt_truncated clear last h short ht.2
  · rw [truncated_of_inside _ positive h']
    refine ⟨_, rfl, Curve.length_sampled _ _, fun i hi => ⟨?_, ?_⟩⟩
    · rw [Curve.sampled, List.getElem?_map, List.getElem?_range hi]
      rfl
    · exact Curve.valueAt_sampled _ hi
  · exact truncated_of_inside _ positive h' count

end ChannelValue

/-- A curve that starts before the effect and ends after it, cut at its third point. -/
theorem ChannelValue.truncated_keeps_of_four_points :
    letI := ExactReading.parabolic
    let c : Curve ℚ := [⟨-1 / 2, 10⟩, ⟨1 / 4, 100⟩, ⟨1 / 2, 40⟩, ⟨3 / 2, 200⟩]
    Scalar.epsilon < (1 / 2 : ℚ) ∧ (1 / 2 : ℚ) < 1 - 0.000001 ∧
      c.IsChain Interpolant.Clear ∧
      (∀ p ∈ (c.filter fun p => p.t < 1 / 2).getLast?, (0.000001 : ℚ) ≤ 1 / 2 - p.t) ∧
      ((curve c).truncated (1 / 2) 25).valueAt (3 / 4) = (curve c).valueAt (3 / 4 * (1 / 2)) := by
  intro c
  let reading := ExactReading.parabolic
  have long : Scalar.epsilon < (1 / 2 : ℚ) := by norm_num [Scalar.epsilon]
  have short : (1 / 2 : ℚ) < 1 - 0.000001 := by norm_num
  have clear : c.IsChain Interpolant.Clear := by
    simp only [c, List.isChain_cons_cons, Interpolant.Clear]
    norm_num
  have last : ∀ p ∈ (c.filter fun p => p.t < 1 / 2).getLast?, (0.000001 : ℚ) ≤ 1 / 2 - p.t := by
    decide +kernel
  have keeps := (ChannelValue.truncated_keeps long short 25).1 c clear last (3 / 4)
    ⟨by norm_num, by norm_num⟩
  exact ⟨long, short, clear, last, keeps⟩

end MovingLight
