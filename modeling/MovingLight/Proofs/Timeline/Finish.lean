import Mathlib.Data.List.Forall2
import MovingLight.Proofs.Timeline.Blend
import MovingLight.Proofs.Timeline.Order

/-!
# Finishing — every curve has its points at even times

What plays a show expects of a curve that its points stand at a fixed number of evenly
spaced times (`Curve.Even`), whatever the curve was before and whichever way it took. It
takes one of three: it is drawn smoothly, it has no point that counts and goes dark, or it
is a level that a blend has written out in points. A blend moves values and no times, so
a curve that is even stays even through any number of them.

`ChannelValue.DrawnTo` is what drawing alone may do to a channel, `ChannelValue.FinishedTo`
what drawing and blending may. Only the four parts of a channel set that are blended
(`ChannelSet.Part`) are ever finished in the wider sense. `Timeline.finish_finishedTo` says
this of all effects of a head, one by one and in a stable order of their starts.
-/

namespace MovingLight

variable {α : Type} [Scalar α]

/-! ## Even times -/

/-- **A curve has one point at each of `n` evenly spaced times.** -/
def Curve.Even (n : Nat) (c : Curve α) : Prop :=
  c.map (·.t) = (List.range n).map fun i => Scalar.evenTime i n

namespace Curve

theorem even_sampled (count : Nat) (f : α → α) : (sampled count f).Even (max count 2) := by
  unfold Even sampled
  rw [List.map_map]
  rfl

theorem even_flat (value : α) (count : Nat) : (flat value count).Even (max count 2) :=
  even_sampled count _

theorem even_smooth? {c d : Curve α} {count : Nat} (h : c.smooth? count = some d) :
    d.Even (max count 2) := by
  unfold Curve.smooth? at h
  obtain ⟨f, -, rfl⟩ := Option.map_eq_some_iff.mp h
  unfold Even
  rw [List.map_map]
  rfl

/-- A change of values leaves times where they are. -/
theorem Even.map {n : Nat} {c : Curve α} (h : c.Even n) {change : CurvePoint α → CurvePoint α}
    (keeps : ∀ p, (change p).t = p.t) : Curve.Even n (c.map change) := by
  unfold Even at h ⊢
  rw [List.map_map, ← h]
  exact List.map_congr_left fun p _ => keeps p

end Curve

theorem CurvePoint.pulled_t (side : Side) (durationMs blendMs anchor : α) (p : CurvePoint α) :
    (p.pulled side durationMs blendMs anchor).t = p.t := by
  unfold CurvePoint.pulled
  dsimp only
  split <;> rfl

/-! ## One channel -/

namespace ChannelValue

/-- **What drawing may do to a channel**: levels and waves stay as they are, and of a curve there
is one with its points at `n` even times. -/
inductive DrawnTo (n : Nat) : ChannelValue α → ChannelValue α → Prop where
  | hold (level : UInt8) : DrawnTo n (.hold level) (.hold level)
  | wave (w : Wave α) : DrawnTo n (.wave w) (.wave w)
  | curve (c : Curve α) {d : Curve α} (even : d.Even n) : DrawnTo n (.curve c) (.curve d)

/-- **What drawing and blending may do to a channel**: a level may have been written out. -/
inductive FinishedTo (n : Nat) : ChannelValue α → ChannelValue α → Prop where
  | drawn {v w : ChannelValue α} (h : v.DrawnTo n w) : FinishedTo n v w
  | promoted (level : UInt8) {d : Curve α} (even : d.Even n) : FinishedTo n (.hold level) (.curve d)

theorem drawn_drawnTo (v : ChannelValue α) (count : Nat) :
    v.DrawnTo (max count 2) (v.drawn count) := by
  cases v with
  | hold level => exact .hold level
  | wave w => exact .wave w
  | curve c =>
    refine .curve c ?_
    cases drawn : c.smooth? count with
    | none => exact Curve.even_flat 0 count
    | some d => exact Curve.even_smooth? drawn

variable {n : Nat}

/-- A finished channel is even once it is read as points. -/
theorem FinishedTo.even_of_points? {v w : ChannelValue α} (h : v.FinishedTo (max n 2) w)
    {c : Curve α} (points : w.points? (max n 2) = some c) : c.Even (max n 2) := by
  cases w with
  | hold level =>
    obtain rfl := Option.some.inj points
    have even := Curve.even_flat (level.toNat : α) (max n 2)
    rwa [Nat.max_eq_left (Nat.le_max_right n 2)] at even
  | wave w => cases points
  | curve d =>
    obtain rfl := Option.some.inj points
    cases h with
    | promoted level even => exact even
    | drawn drawn =>
      cases drawn with
      | curve c even => exact even

/-- A finished channel may be redrawn at even times, if it is no wave. -/
theorem FinishedTo.redrawn {v w : ChannelValue α} (h : v.FinishedTo n w) {c d : Curve α} {m : Nat}
    (points : w.points? m = some c) (even : d.Even n) : v.FinishedTo n (.curve d) := by
  cases h with
  | promoted level _ => exact .promoted level even
  | drawn drawn =>
    cases drawn with
    | hold level => exact .promoted level even
    | wave w => cases points
    | curve c _ => exact .drawn (.curve c even)

/-- **What a blend does to two channels**: nothing where they hold one level or one of them is a
wave, and else it pulls the points of both. -/
theorem blended_cases (v w : ChannelValue α) (currentMs nextMs : Nat) (blendMs : α) (count : Nat) :
    v.blended w currentMs nextMs blendMs count = (v, w) ∧
        ((∃ level, v = .hold level ∧ w = .hold level) ∨ v.points? count = none ∨
          w.points? count = none) ∨
      ∃ tail head, v.points? count = some tail ∧ w.points? count = some head ∧
        v.blended w currentMs nextMs blendMs count =
          (.curve (tail.map (CurvePoint.pulled .tail (currentMs : α) blendMs w.startValue)),
            .curve (head.map (CurvePoint.pulled .head (nextMs : α) blendMs v.endValue))) := by
  unfold ChannelValue.blended
  dsimp only
  split
  · rename_i a b
    split
    · rename_i same
      exact Or.inl ⟨rfl, Or.inl ⟨a, rfl, congrArg ChannelValue.hold (eq_of_beq same).symm⟩⟩
    · exact Or.inr ⟨_, _, rfl, rfl, rfl⟩
  · rw [if_neg Bool.false_ne_true]
    cases v.points? count with
    | none => exact Or.inl ⟨rfl, Or.inr (Or.inl rfl)⟩
    | some tail =>
      cases w.points? count with
      | none => exact Or.inl ⟨rfl, Or.inr (Or.inr rfl)⟩
      | some head => exact Or.inr ⟨tail, head, rfl, rfl, rfl⟩

/-- **One blend of two channels** finishes both for what they were before. -/
theorem FinishedTo.blended {v v' w w' : ChannelValue α} (h : v.FinishedTo (max n 2) w)
    (h' : v'.FinishedTo (max n 2) w') (currentMs nextMs : Nat) (blendMs : α) :
    v.FinishedTo (max n 2) (w.blended w' currentMs nextMs blendMs (max n 2)).1 ∧
      v'.FinishedTo (max n 2) (w.blended w' currentMs nextMs blendMs (max n 2)).2 := by
  rcases w.blended_cases w' currentMs nextMs blendMs (max n 2) with
    ⟨same, -⟩ | ⟨c, c', tail, head, pulled⟩
  · rw [same]
    exact ⟨h, h'⟩
  · have even := (h.even_of_points? tail).map
      (CurvePoint.pulled_t .tail (currentMs : α) blendMs w'.startValue)
    have even' := (h'.even_of_points? head).map
      (CurvePoint.pulled_t .head (nextMs : α) blendMs w.endValue)
    rw [pulled]
    exact ⟨h.redrawn tail even, h'.redrawn head even'⟩

end ChannelValue

/-! ## One head -/

/-- What drawing may do to a colour: a mixture stays as it is. -/
inductive Color.DrawnTo (n : Nat) : Color α → Color α → Prop where
  | wheel {v w : ChannelValue α} (h : v.DrawnTo n w) : DrawnTo n (.wheel v) (.wheel w)
  | rgb (red green blue : UInt8) : DrawnTo n (.rgb red green blue) (.rgb red green blue)

namespace ChannelSet

/-- The parts of a channel set that are blended. -/
inductive Part where
  | pan
  | tilt
  | dimmer
  /-- Only where both neighbours have one. -/
  | shutter
  deriving DecidableEq, Repr

/-- What a channel set says about a part. -/
def part? (s : ChannelSet α) : Part → Option (ChannelValue α)
  | .pan => some s.pan
  | .tilt => some s.tilt
  | .dimmer => some s.dimmer
  | .shutter => s.shutter

/-- **Blending works part by part**, where both neighbours have the part. -/
theorem part?_blended (s t : ChannelSet α) (currentMs nextMs : Nat) (blendMs : α) (count : Nat)
    (k : Part) :
    ((s.blended t currentMs nextMs blendMs count).1.part? k,
      (s.blended t currentMs nextMs blendMs count).2.part? k) =
    match s.part? k, t.part? k with
    | some v, some w =>
      (some (v.blended w currentMs nextMs blendMs count).1,
        some (v.blended w currentMs nextMs blendMs count).2)
    | v, w => (v, w) := by
  cases k with
  | pan => rfl
  | tilt => rfl
  | dimmer => rfl
  | shutter =>
    obtain ⟨pan, tilt, dimmer, shutter, color, gobo⟩ := s
    obtain ⟨pan', tilt', dimmer', shutter', color', gobo'⟩ := t
    cases shutter <;> cases shutter' <;> rfl

/-- **One blend, for any part**: what it does to two channels that are known by `R` and `R'` it does
to the parts of two heads. A part that the other head lacks is left alone. -/
theorem rel_part?_blended {R R' : ChannelValue α → ChannelValue α → Prop}
    {S T : Option (ChannelValue α) → ChannelValue α → ChannelValue α → Prop}
    {s s' t t' : ChannelSet α} {k : Part} (rel : Option.Rel R (s.part? k) (t.part? k))
    (rel' : Option.Rel R' (s'.part? k) (t'.part? k)) {currentMs nextMs : Nat} {blendMs : α}
    {count : Nat} (alone : ∀ v w, R v w → S none v w) (alone' : ∀ v w, R' v w → T none v w)
    (blend : ∀ v w v' w', R v w → R' v' w' →
      S (some v') v (w.blended w' currentMs nextMs blendMs count).1 ∧
        T (some v) v' (w.blended w' currentMs nextMs blendMs count).2) :
    Option.Rel (S (s'.part? k)) (s.part? k)
        ((t.blended t' currentMs nextMs blendMs count).1.part? k) ∧
      Option.Rel (T (s.part? k)) (s'.part? k)
        ((t.blended t' currentMs nextMs blendMs count).2.part? k) := by
  obtain ⟨first, second⟩ := Prod.mk.inj (part?_blended t t' currentMs nextMs blendMs count k)
  rw [first, second]
  generalize s.part? k = before at rel ⊢
  generalize s'.part? k = before' at rel' ⊢
  generalize t.part? k = after at rel ⊢
  generalize t'.part? k = after' at rel' ⊢
  cases rel with
  | none =>
    cases rel' with
    | none => exact ⟨.none, .none⟩
    | some known' => exact ⟨.none, .some (alone' _ _ known')⟩
  | some known =>
    cases rel' with
    | none => exact ⟨.some (alone _ _ known), .none⟩
    | some known' =>
      obtain ⟨earlier, later⟩ := blend _ _ _ _ known known'
      exact ⟨.some earlier, .some later⟩

/-- **What finishing may do to a head**: to the parts that are blended more than to the others. -/
structure FinishedTo (n : Nat) (s t : ChannelSet α) : Prop where
  parts : ∀ k, Option.Rel (ChannelValue.FinishedTo n) (s.part? k) (t.part? k)
  color : Option.Rel (Color.DrawnTo n) s.color t.color
  gobo : Option.Rel (ChannelValue.DrawnTo n) s.gobo t.gobo

/-- An optional value and its change are related as values are. -/
theorem rel_map {β : Type} {R : β → β → Prop} {f : β → β} (h : ∀ b, R b (f b)) (o : Option β) :
    Option.Rel R o (o.map f) := by
  cases o with
  | none => exact .none
  | some b => exact .some (h b)

theorem rel_imp {β : Type} {R S : β → β → Prop} (h : ∀ b c, R b c → S b c) {o p : Option β}
    (rel : Option.Rel R o p) : Option.Rel S o p := by
  cases rel with
  | none => exact .none
  | some known => exact .some (h _ _ known)

theorem drawn_finishedTo (s : ChannelSet α) (count : Nat) :
    s.FinishedTo (max count 2) (s.map (·.drawn count)) where
  parts k := by
    have drawn := fun v : ChannelValue α => ChannelValue.FinishedTo.drawn (v.drawn_drawnTo count)
    cases k with
    | pan => exact .some (drawn s.pan)
    | tilt => exact .some (drawn s.tilt)
    | dimmer => exact .some (drawn s.dimmer)
    | shutter => exact rel_map drawn s.shutter
  color := by
    refine rel_map (fun c => ?_) s.color
    cases c with
    | wheel v => exact .wheel (v.drawn_drawnTo count)
    | rgb red green blue => exact .rgb red green blue
  gobo := rel_map (fun v => v.drawn_drawnTo count) s.gobo

/-- **One blend of two heads** finishes both for what they were before. -/
theorem FinishedTo.blended {n : Nat} {s s' t t' : ChannelSet α} (h : s.FinishedTo (max n 2) t)
    (h' : s'.FinishedTo (max n 2) t') (currentMs nextMs : Nat) (blendMs : α) :
    s.FinishedTo (max n 2) (t.blended t' currentMs nextMs blendMs (max n 2)).1 ∧
      s'.FinishedTo (max n 2) (t.blended t' currentMs nextMs blendMs (max n 2)).2 := by
  have parts (k : Part) := rel_part?_blended
    (S := fun _ => ChannelValue.FinishedTo (max n 2))
    (T := fun _ => ChannelValue.FinishedTo (max n 2)) (h.parts k) (h'.parts k)
    (fun _ _ known => known) (fun _ _ known => known)
    fun _ _ _ _ known known' => known.blended known' currentMs nextMs blendMs
  exact ⟨⟨fun k => (parts k).1, h.color, h.gobo⟩, ⟨fun k => (parts k).2, h'.color, h'.gobo⟩⟩

end ChannelSet

/-! ## One effect, and all of them -/

/-- **What finishing may do to an effect**: nothing to its frame. -/
structure Effect.FinishedTo (n : Nat) (e o : Effect α) : Prop where
  frame : o.frame = e.frame
  channels : e.channels.FinishedTo n o.channels

namespace Effect

theorem drawn_finishedTo (e : Effect α) (count : Nat) :
    e.FinishedTo (max count 2) (e.drawn count) :=
  ⟨e.drawn_frame count, e.channels.drawn_finishedTo count⟩

/-- **One blend of two effects** finishes both for what they were before. -/
theorem FinishedTo.blended {settings : Settings α} {e e' o o' : Effect α}
    (h : e.FinishedTo (max settings.curvePoints 2) o)
    (h' : e'.FinishedTo (max settings.curvePoints 2) o') :
    e.FinishedTo (max settings.curvePoints 2) (o.blended settings o').1 ∧
      e'.FinishedTo (max settings.curvePoints 2) (o.blended settings o').2 := by
  obtain ⟨frame, frame'⟩ := o.blended_frames settings o'
  have channels : e.channels.FinishedTo (max settings.curvePoints 2)
        (o.blended settings o').1.channels ∧
      e'.channels.FinishedTo (max settings.curvePoints 2)
        (o.blended settings o').2.channels := by
    unfold Effect.blended
    split
    · exact ⟨h.channels, h'.channels⟩
    · exact h.channels.blended h'.channels _ _ _
  exact ⟨⟨frame.trans h.frame, channels.1⟩, ⟨frame'.trans h'.frame, channels.2⟩⟩

end Effect

namespace Timeline

variable (settings : Settings α)

/-- One blend after another. The later of two blended effects is finished and is blended again, so
the induction is on the effects that follow, for any that is finished. -/
theorem blendFrom_finishedTo {e o : Effect α} {effects others : List (Effect α)}
    (h : e.FinishedTo (max settings.curvePoints 2) o)
    (rest : List.Forall₂ (Effect.FinishedTo (max settings.curvePoints 2)) effects others) :
    List.Forall₂ (Effect.FinishedTo (max settings.curvePoints 2)) (e :: effects)
      (blendFrom settings o others) := by
  induction rest generalizing e o with
  | nil => exact .cons h .nil
  | cons next _ ih =>
    obtain ⟨earlier, later⟩ := h.blended next
    exact .cons earlier (ih later)

/-- **Finishing gives one finished effect for each**, in order of their starts and effects of one
start in the order given. -/
theorem finish_finishedTo (effects : List (Effect α)) :
    ∃ ordered : List (Effect α), ordered.Perm effects ∧
      ordered.Pairwise (fun a b => a.startMs ≤ b.startMs) ∧
      (∀ time, ordered.filter (·.startMs = time) = effects.filter (·.startMs = time)) ∧
      List.Forall₂ (Effect.FinishedTo (max settings.curvePoints 2)) ordered
        (finish settings effects) := by
  refine ⟨sorted effects, sorted_perm effects, sorted_pairwise effects,
    fun time => filter_sorted time effects, ?_⟩
  have drawn : List.Forall₂ (Effect.FinishedTo (max settings.curvePoints 2)) (sorted effects)
      ((sorted effects).map (Effect.drawn (max settings.curvePoints 2))) := by
    refine List.forall₂_map_right_iff.mpr (List.forall₂_same.mpr fun e _ => ?_)
    have finished := e.drawn_finishedTo (max settings.curvePoints 2)
    rwa [Nat.max_eq_left (Nat.le_max_right settings.curvePoints 2)] at finished
  unfold finish blend
  generalize (sorted effects).map (Effect.drawn (max settings.curvePoints 2)) = others at drawn ⊢
  generalize sorted effects = ordered at drawn ⊢
  cases drawn with
  | nil => exact .nil
  | cons first rest =>
    dsimp only
    split
    · exact .cons first rest
    · exact blendFrom_finishedTo settings first rest

end Timeline

end MovingLight
