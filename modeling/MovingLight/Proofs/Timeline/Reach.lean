import MovingLight.Document
import MovingLight.Proofs.Timeline.Crossfade

/-!
# Reach — how far the two blends of an effect may go

An effect between two crossfades is pulled at its start towards the one before and at its
end towards the one after. Nothing in a blend asks whether the other has been to a sample
already. What keeps them apart is the share of an effect that a blend may cover, and this
module says which shares do.

A pull reaches the samples that are nearer to its boundary than it is long
(`Side.weight_pos_iff`). Samples lie at even times, so the one that is furthest from both ends
is in the middle, or next to it where their number is even: no sample is reached from both ends
exactly if no blend goes past that one (`Settings.pullsApart_iff`). With three samples this is
half of the effect, with two all of it.

Settings made of a flat table limit the share to one half, which is enough for any number of
samples. Settings read from a document take any share, and with one that is too large a blend
takes what another has left for the value of its neighbour (`Settings.not_pulls_apart`).
-/

namespace MovingLight

/-! ## Even times from either end -/

namespace Scalar

variable [ExactReading]

/-- The time as long before the end as another is after the start. -/
theorem one_sub_evenTime {i n : Nat} (h : i < n) (two : 2 ≤ n) :
    1 - evenTime i n = (evenTime (n - 1 - i) n : ℚ) := by
  have positive : (0 : ℚ) < ((n - 1 : Nat) : ℚ) := by
    rw [Nat.cast_pos]
    omega
  unfold evenTime
  rw [Nat.cast_sub (show i ≤ n - 1 by omega), sub_div, div_self positive.ne']

/-- **A share goes past the middle time exactly if some time is nearer to both ends.** -/
theorem middle_lt_iff {n : Nat} (two : 2 ≤ n) {share : ℚ} :
    evenTime (n / 2) n < share ↔
      ∃ i < n, evenTime i n < share ∧ 1 - evenTime i n < share := by
  constructor
  · intro past
    have inside : n / 2 < n := Nat.div_lt_self (by omega) one_lt_two
    refine ⟨n / 2, inside, past, ?_⟩
    rw [one_sub_evenTime inside two]
    exact (evenTime_le (by omega) n).trans_lt past
  · rintro ⟨i, inside, start, finish⟩
    rw [one_sub_evenTime inside two] at finish
    -- one of the two times does not lie before the middle
    rcases Nat.lt_or_ge i (n / 2) with early | late
    · exact (evenTime_le (by omega) n).trans_lt finish
    · exact (evenTime_le late n).trans_lt start

end Scalar

section Exact

variable [ExactReading]

/-! ## What a pull reaches -/

/-- **A pull reaches the samples that are nearer to its boundary than it is long.** -/
theorem Side.weight_pos_iff (side : Side) {durationMs lengthMs : ℚ} (pos : 0 < lengthMs)
    (timeMs : ℚ) : 0 < side.weight durationMs lengthMs timeMs ↔
      side.distance durationMs timeMs < lengthMs := by
  rw [side.weight_eq pos, sub_pos, div_lt_one pos]

/-- **No sample of an effect is pulled from both ends.** -/
def Effect.PulledApart (settings : Settings ℚ) (before after : Option (Effect ℚ))
    (e : Effect ℚ) : Prop :=
  ∀ k, ∀ pull ∈ e.pullsAtStart settings before k, ∀ pull' ∈ e.pullsAtEnd settings after k,
    ∀ v ∈ e.channels.part? k, ∀ p ∈ v.samples (max settings.curvePoints 2),
      ¬(0 < Side.head.weight (e.durationMs : ℚ) pull.lengthMs (p.t * e.durationMs) ∧
        0 < Side.tail.weight (e.durationMs : ℚ) pull'.lengthMs (p.t * e.durationMs))

/-- **Settings keep the pulls of an effect apart**: in no timeline without waves is a sample of a
drawn effect pulled from both ends, and each effect is pulled towards what its neighbours showed
before any blend. -/
def Settings.PullsApart (settings : Settings ℚ) : Prop :=
  ∀ effects : List (Effect ℚ), (∀ e ∈ effects, e.channels.hasWave = false) →
    Timeline.EachInContext
      (fun before after e d => e.PulledApart settings before after ∧
        e.PulledTo settings (e.pullAtStart? settings before) (e.pullAtEnd? settings after) d)
      none ((Timeline.sorted effects).map (Effect.drawn (max settings.curvePoints 2)))
      (Timeline.finish settings effects)

/-! ## Drawn effects -/

theorem ChannelSet.hasWave_drawn (count : Nat) (s : ChannelSet ℚ) :
    (s.map (·.drawn count)).hasWave = s.hasWave := by
  have same (v : ChannelValue ℚ) : (v.drawn count).isWave = v.isWave := by
    cases v <;> rfl
  obtain ⟨pan, tilt, dimmer, shutter, color, gobo⟩ := s
  cases shutter <;> cases gobo <;> cases color with
  | none => simp [hasWave, values, map, same]
  | some color => cases color <;> simp [hasWave, values, map, Color.map, same]

/-- The samples of a drawn effect lie at even times. -/
theorem Effect.exists_evenTime {e : Effect ℚ} {count : Nat} {k : ChannelSet.Part}
    {v : ChannelValue ℚ} (hv : v ∈ (e.drawn (max count 2)).channels.part? k) {p : CurvePoint ℚ}
    (hp : p ∈ v.samples (max count 2)) :
    ∃ i < max count 2, Scalar.evenTime i (max count 2) = p.t := by
  have drawn := (e.channels.drawn_finishedTo (max count 2)).parts k
  rw [Nat.max_eq_left (Nat.le_max_right count 2)] at drawn
  rw [show (e.channels.map (·.drawn (max count 2))).part? k = some v from hv] at drawn
  generalize e.channels.part? k = o at drawn
  cases drawn with
  | some finished =>
    unfold ChannelValue.samples at hp
    cases points : v.points? (max count 2) with
    | none =>
      rw [points] at hp
      cases hp
    | some c =>
      rw [points, Option.getD_some] at hp
      have even := finished.even_of_points? points
      have listed : p.t ∈ (List.range (max count 2)).map fun i =>
          Scalar.evenTime i (max count 2) := by
        rw [← even]
        exact List.mem_map_of_mem hp
      obtain ⟨i, hi, time⟩ := List.mem_map.mp listed
      exact ⟨i, List.mem_range.mp hi, time⟩

/-! ## Which shares keep pulls apart -/

section Share

variable {settings : Settings ℚ}

/-- **Within a share that does not go past the middle sample** no sample is pulled from both ends. -/
theorem Effect.pulledApart_drawn
    (share : settings.blendFraction ≤
      Scalar.evenTime (max settings.curvePoints 2 / 2) (max settings.curvePoints 2))
    (before after : Option (Effect ℚ)) (e : Effect ℚ) :
    (e.drawn (max settings.curvePoints 2)).PulledApart settings before after := by
  rintro k pull ⟨b, -, early, -⟩ pull' ⟨a, -, late, -⟩ v hv p hp ⟨start, finish⟩
  obtain ⟨i, inside, time⟩ := Effect.exists_evenTime hv hp
  rw [Side.weight_pos_iff _ early.pos] at start
  rw [Side.weight_pos_iff _ late.pos] at finish
  set lasts : ℚ := ((e.drawn (max settings.curvePoints 2)).durationMs : ℚ) with lasts_eq
  have start_share : p.t * lasts < settings.blendFraction * lasts :=
    start.trans_le early.le_shares.2
  have finish_share : (1 - p.t) * lasts < settings.blendFraction * lasts := by
    rw [sub_mul, one_mul]
    exact finish.trans_le late.le_shares.1
  have nonneg : 0 ≤ lasts := Nat.cast_nonneg _
  have past := (Scalar.middle_lt_iff (Nat.le_max_right settings.curvePoints 2)).mpr
    ⟨i, inside, time.trans_lt (lt_of_mul_lt_mul_right start_share nonneg),
      (congrArg (1 - ·) time).trans_lt (lt_of_mul_lt_mul_right finish_share nonneg)⟩
  exact past.not_ge share

/-- **Within such a share pulls keep apart**, whatever is blended. -/
theorem Settings.pullsApart_of_share
    (share : settings.blendFraction ≤
      Scalar.evenTime (max settings.curvePoints 2 / 2) (max settings.curvePoints 2)) :
    settings.PullsApart := by
  intro effects no_wave
  have inside : max settings.curvePoints 2 / 2 < max settings.curvePoints 2 :=
    Nat.div_lt_self (by omega) one_lt_two
  have whole : settings.blendFraction ≤ 1 := share.trans (Scalar.evenTime_mem inside).2
  have drawn : ∀ d ∈ (Timeline.sorted effects).map (Effect.drawn (max settings.curvePoints 2)),
      ∃ e ∈ effects, e.drawn (max settings.curvePoints 2) = d := by
    intro d hd
    obtain ⟨e, he, rfl⟩ := List.mem_map.mp hd
    exact ⟨e, Timeline.mem_sorted.mp he, rfl⟩
  have still : ∀ d ∈ (Timeline.sorted effects).map (Effect.drawn (max settings.curvePoints 2)),
      d.channels.hasWave = false := by
    intro d hd
    obtain ⟨e, he, rfl⟩ := drawn d hd
    exact (e.channels.hasWave_drawn _).trans (no_wave e he)
  refine Timeline.EachInContext.and_of_forall (fun d hd before after => ?_)
    (Timeline.blend_pulledTo whole (Timeline.sorted effects) _ still)
  obtain ⟨e, -, rfl⟩ := drawn d hd
  exact Effect.pulledApart_drawn share before after e

/-- A level has a sample at each of the even times. -/
theorem ChannelValue.mem_samples_hold (level : UInt8) {i count : Nat} (inside : i < max count 2) :
    ⟨Scalar.evenTime i (max count 2), (level.toNat : ℚ)⟩ ∈
      (ChannelValue.hold level).samples (max count 2) := by
  refine List.mem_map.mpr ⟨i, ?_, ?_⟩
  · rw [List.mem_range, Nat.max_eq_left (Nat.le_max_right count 2)]
    exact inside
  · rw [Nat.max_eq_left (Nat.le_max_right count 2)]

/-- An effect of one millisecond that holds a level and goes over into the next as slowly as a blend
may. -/
def Effect.brief (share : ℚ) (pan : UInt8) (startMs : Nat) : Effect ℚ where
  fixtureId := ""
  startMs := startMs
  endMs := startMs + 1
  channels := { pan := .hold pan, tilt := .hold 0, dimmer := .hold 255 }
  boundary := { exit := some ⟨.crossfade, ⌈share⌉₊⟩ }
  label := ""
  metadata := []

omit [ExactReading] in
theorem Effect.brief_crossfades (pos : 0 < settings.blendFraction) (pan pan' : UInt8)
    (startMs : Nat) :
    (brief settings.blendFraction pan startMs).Crossfades settings
      (brief settings.blendFraction pan' (startMs + 1)) settings.blendFraction := by
  have requested : Transition.requestedMs ⟨.crossfade, ⌈settings.blendFraction⌉₊⟩
      settings.defaultBlendMs = ⌈settings.blendFraction⌉₊ := if_pos (Nat.ceil_pos.mpr pos)
  have lasts (pan : UInt8) (startMs : Nat) :
      (brief settings.blendFraction pan startMs).durationMs = 1 := Nat.add_sub_cancel_left _ _
  refine ⟨Nat.le_refl _, ⟨⟨.crossfade, ⌈settings.blendFraction⌉₊⟩, rfl, rfl, ?_⟩, pos⟩
  rw [requested, lasts, lasts, Nat.cast_one, mul_one, min_eq_right (Nat.le_ceil _), min_self]

/-- **Past such a share** the middle one of three effects is pulled from both ends at once. -/
theorem Settings.share_of_pullsApart (apart : settings.PullsApart) :
    settings.blendFraction ≤
      Scalar.evenTime (max settings.curvePoints 2 / 2) (max settings.curvePoints 2) := by
  by_contra past
  rw [not_le] at past
  obtain ⟨i, inside, start, finish⟩ :=
    (Scalar.middle_lt_iff (Nat.le_max_right settings.curvePoints 2)).mp past
  have pos : 0 < settings.blendFraction := (Scalar.evenTime_mem inside).1.trans_lt start
  let effects := [Effect.brief settings.blendFraction 0 0, .brief settings.blendFraction 100 1,
    .brief settings.blendFraction 200 2]
  have drawn : (Timeline.sorted effects).map (Effect.drawn (max settings.curvePoints 2)) =
      [.brief settings.blendFraction 0 0, .brief settings.blendFraction 100 1,
        .brief settings.blendFraction 200 2] := by
    rw [Timeline.sorted_eq_self (by simp [effects, Effect.brief])]
    rfl
  have each := apart effects (by simp [effects, Effect.brief, ChannelSet.hasWave,
    ChannelSet.values, ChannelValue.isWave])
  rw [drawn] at each
  generalize Timeline.finish settings effects = others at each
  obtain _ | ⟨-, _ | ⟨⟨middle, -⟩, -⟩⟩ := each
  have early := Effect.brief_crossfades pos 0 100 0
  have late := Effect.brief_crossfades pos 100 200 1
  have lasts : (((Effect.brief settings.blendFraction 100 1).durationMs : Nat) : ℚ) = 1 :=
    Nat.cast_one
  have listed := ChannelValue.mem_samples_hold 100 inside
  refine middle .pan ⟨_, 0⟩ ⟨_, rfl, early, _, rfl, rfl⟩ ⟨_, 200⟩ ⟨_, rfl, late, _, rfl, rfl⟩ _ rfl
    _ listed ⟨?_, ?_⟩
  · rw [Side.weight_pos_iff _ pos, lasts, mul_one]
    exact start
  · rw [Side.weight_pos_iff _ pos, lasts, mul_one]
    exact finish

/-- **Which shares keep pulls apart**: those that do not go past the middle sample. -/
theorem Settings.pullsApart_iff : settings.PullsApart ↔ settings.blendFraction ≤
    Scalar.evenTime (max settings.curvePoints 2 / 2) (max settings.curvePoints 2) :=
  ⟨share_of_pullsApart, pullsApart_of_share⟩

end Share

/-- A flat table lets a blend cover no more than half of an effect. -/
theorem Settings.blendFraction_ofTable (table : List (String × String)) :
    (Settings.ofTable table : Settings ℚ).blendFraction ≤ 1 / 2 := by
  have half : (0.5 : ℚ) = 1 / 2 := by norm_num
  rw [← half]
  exact (Scalar.clamp_mem (by norm_num) _).2

/-- The middle time is not in the first half. -/
theorem Scalar.half_le_middle {n : Nat} (two : 2 ≤ n) : 1 / 2 ≤ (evenTime (n / 2) n : ℚ) := by
  have positive : (0 : ℚ) < ((n - 1 : Nat) : ℚ) := by
    rw [Nat.cast_pos]
    omega
  have doubled : ((n - 1 : Nat) : ℚ) ≤ ((n / 2 * 2 : Nat) : ℚ) := by
    rw [Nat.cast_le]
    omega
  unfold evenTime
  rw [div_le_div_iff₀ two_pos positive, one_mul]
  exact_mod_cast doubled

/-- **How far the blends of an effect may go.** With settings from a flat table no sample is pulled
from both ends of its effect and every pull is towards what the neighbour was before any blend;
with settings from anywhere, exactly if the share that a blend may cover does not go past the
sample in the middle, or the one after it. -/
theorem Settings.pulls_apart :
    (∀ table, (Settings.ofTable table : Settings ℚ).PullsApart) ∧
      ∀ settings : Settings ℚ, settings.PullsApart ↔ settings.blendFraction ≤
        Scalar.evenTime (max settings.curvePoints 2 / 2) (max settings.curvePoints 2) := by
  refine ⟨fun table => pullsApart_iff.mpr ?_, fun _ => pullsApart_iff⟩
  exact (blendFraction_ofTable table).trans (Scalar.half_le_middle (Nat.le_max_right _ 2))

end Exact

/-- **A document may ask for blends that reach past each other**: its share is taken as it is. -/
theorem Settings.not_pulls_apart :
    letI := ExactReading.parabolic
    ¬∀ (bytes : Option ByteArray) (settings : Settings ℚ),
      Document.load Settings.ofPlace? bytes = .ok settings → settings.PullsApart := by
  let reading := ExactReading.parabolic
  intro apart
  let text := "\x7b\"blendWindowFraction\": 2, \"curvePoints\": 2\x7d"
  have readable : String.fromUTF8? text.toUTF8 = some text := dif_pos text.isValidUTF8
  have read : ((Document.read? (Settings.ofPlace? (α := ℚ)) text).map fun s =>
      (s.blendFraction, s.curvePoints)) = some (2, 2) := by decide +kernel
  obtain ⟨settings, found, asked⟩ := Option.map_eq_some_iff.mp read
  obtain ⟨fraction, points⟩ := Prod.mk.inj asked
  have loaded : Document.load Settings.ofPlace? (some text.toUTF8) = .ok settings := by
    unfold Document.load
    rw [Option.bind_some, readable]
    dsimp only
    rw [found]
  have share := Settings.pullsApart_iff.mp (apart (some text.toUTF8) settings loaded)
  rw [fraction, points] at share
  revert share
  decide +kernel

end MovingLight
