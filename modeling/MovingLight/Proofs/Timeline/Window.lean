import MovingLight.Proofs.Channel.Window
import MovingLight.Proofs.Timeline.Blend
import MovingLight.Proofs.Timeline.Fill

/-!
# A head in its windows — from one effect to a whole timeline

`ChannelSet.Obeys f` says that pan and tilt of an effect stay in the windows of a
head. Everything that happens to the effects of a head after they have been
sequenced keeps that: cutting them short where they overlap, filling the gaps
between them, drawing and blending.

Only filling makes effects. What they run between are `Anchor`s, and each of these
lies in the windows of the head (`Anchor.Within`): the resting pose because it is
limited to them, and what a neighbour shows at its end or its start because the
neighbour obeys the head.
-/

namespace MovingLight

/-- **Pan and tilt stay in the windows of a head.** -/
structure ChannelSet.Obeys (f : Fixture ℚ) (c : ChannelSet ℚ) : Prop where
  pan : c.pan.KeepsTo f.pan.range
  tilt : c.tilt.KeepsTo f.tilt.range

/-- **A position lies in the windows of a head.** -/
structure Anchor.Within (f : Fixture ℚ) (a : Anchor ℚ) : Prop where
  pan : a.pan ∈ f.pan.range
  tilt : a.tilt ∈ f.tilt.range

variable [ExactReading] {f : Fixture ℚ}

/-! ## One effect -/

theorem ChannelSet.Obeys.truncated {c : ChannelSet ℚ} (h : c.Obeys f) (ratio : ℚ) (count : Nat) :
    (c.truncated ratio count).Obeys f :=
  ⟨h.pan.truncated ratio count, h.tilt.truncated ratio count⟩

theorem Effect.drawn_obeys {e : Effect ℚ} (h : e.channels.Obeys f) (count : Nat) :
    (e.drawn count).channels.Obeys f :=
  ⟨h.pan.drawn count, h.tilt.drawn count⟩

theorem Effect.endedBy_obeys {e : Effect ℚ} (h : e.channels.Obeys f) (count : Nat)
    (next : Option Nat) : (e.endedBy count next).channels.Obeys f := by
  unfold Effect.endedBy
  split
  · exact h
  · split
    · exact h.truncated _ count
    · exact h

theorem Effect.blended_obeys {current next : Effect ℚ} (h : current.channels.Obeys f)
    (h' : next.channels.Obeys f) (settings : Settings ℚ) :
    (current.blended settings next).1.channels.Obeys f ∧
      (current.blended settings next).2.channels.Obeys f := by
  unfold Effect.blended
  split
  · exact ⟨h, h'⟩
  · have pan := h.pan.blended h'.pan
    have tilt := h.tilt.blended h'.tilt
    exact ⟨⟨(pan _ _ _ _).1, (tilt _ _ _ _).1⟩, ⟨(pan _ _ _ _).2, (tilt _ _ _ _).2⟩⟩

/-! ## Anchors and passages -/

theorem Anchor.within_moment {c : ChannelSet ℚ} (h : c.Obeys f) (t : ℚ) :
    (Anchor.moment t c).Within f := ⟨h.pan.valueAt_mem t, h.tilt.valueAt_mem t⟩

theorem Fixture.within_darkHome (f : Fixture ℚ) (settings : Settings ℚ) :
    (f.darkHome settings).Within f := ⟨f.pan.dmxOf_mem _, f.tilt.dmxOf_mem _⟩

/-- The light is put out without a move. -/
theorem Anchor.Within.dark {a : Anchor ℚ} (h : a.Within f) (shutterClosed : UInt8) :
    (a.dark shutterClosed).Within f := ⟨h.pan, h.tilt⟩

namespace Passage

variable {p : Passage ℚ}

theorem channels_obeys {source target : Anchor ℚ} (h : source.Within f) (h' : target.Within f) :
    (channels source target).Obeys f := by
  obtain ⟨pan, tilt⟩ := h
  obtain ⟨pan', tilt'⟩ := h'
  rw [← Axis.window_range] at pan pan' tilt tilt'
  constructor
  · rw [← Axis.window_range]
    exact ChannelValue.keepsTo_run pan pan'
  · rw [← Axis.window_range]
    exact ChannelValue.keepsTo_run tilt tilt'

theorem phase?_obeys {name : String} {a b : Nat} {source target : Anchor ℚ}
    (h : source.Within f) (h' : target.Within f) :
    ∀ e ∈ (p.phase? name a b source target).toList, e.channels.Obeys f := by
  unfold phase?
  split
  · exact List.forall_mem_nil _
  · exact List.forall_mem_singleton.mpr (channels_obeys h h')

/-- **Every way across a passage stays in the windows that its anchors lie in.** -/
theorem effects_obey (source : p.source.Within f) (target : p.target.Within f)
    (home : p.home.Within f) (mode : TransitionMode) :
    ∀ e ∈ p.effects mode, e.channels.Obeys f := by
  have darkSource := source.dark p.shutterClosed
  have darkTarget := target.dark p.shutterClosed
  cases mode with
  | snap => exact List.forall_mem_nil _
  | crossfade => exact phase?_obeys source target
  | fadeThroughBlack =>
    simp only [effects, fadeThroughBlack, List.forall_mem_append]
    exact ⟨⟨phase?_obeys source darkSource, phase?_obeys darkTarget darkTarget⟩,
      phase?_obeys darkTarget target⟩
  | gapFill =>
    simp only [effects, byWayOfHome, List.forall_mem_append]
    exact ⟨⟨phase?_obeys source home, phase?_obeys home home⟩, phase?_obeys home target⟩

end Passage

/-! ## A timeline -/

namespace Timeline

variable {effects : List (Effect ℚ)} (settings : Settings ℚ)

theorem resolveOverlaps_obeys (h : ∀ e ∈ effects, e.channels.Obeys f) (count : Nat) :
    ∀ e ∈ resolveOverlaps count effects, e.channels.Obeys f :=
  forall_resolveOverlaps (fun _ next h => Effect.endedBy_obeys h count next) h

/-- Whatever the way across a gap, it leads from one position in the windows to another. -/
theorem within_of_crossing? {home : Anchor ℚ} {state : GapState}
    {before after : Option (Effect ℚ)} {mode : TransitionMode} {source target : Anchor ℚ}
    {kind : GapKind} (hhome : home.Within f) (hbefore : ∀ e ∈ before, e.channels.Obeys f)
    (hafter : ∀ e ∈ after, e.channels.Obeys f)
    (h : crossing? home state before after = some (mode, source, target, kind)) :
    source.Within f ∧ target.Within f := by
  unfold crossing? at h
  split at h
  · cases h
    exact ⟨hhome, hhome⟩
  · cases h
    exact ⟨hhome, hhome⟩
  · cases h
    exact ⟨Anchor.within_moment (hbefore _ rfl) 1, Anchor.within_moment (hafter _ rfl) 0⟩
  · cases h
    exact ⟨Anchor.within_moment (hbefore _ rfl) 1, Anchor.within_moment (hafter _ rfl) 0⟩
  · cases h

theorem fillGap_obeys (h : ∀ e ∈ effects, e.channels.Obeys f) (g : Gap) :
    ∀ e ∈ fillGap settings f effects g, e.channels.Obeys f := by
  have home := f.within_darkHome settings
  have hbefore : ∀ e ∈ before? effects g, e.channels.Obeys f := fun e he => h e (of_before? he).1
  have hafter : ∀ e ∈ after? effects g, e.channels.Obeys f := fun e he => h e (of_after? he).1
  unfold fillGap
  dsimp only
  split
  · -- there is no way across
    exact List.forall_mem_nil _
  · rename_i crossing
    obtain ⟨source, target⟩ := within_of_crossing? home hbefore hafter crossing
    exact Passage.effects_obey source target home _

/-- **Filling keeps a head in its windows.** -/
theorem fill_obeys (h : ∀ e ∈ effects, e.channels.Obeys f) (songMs : Nat) :
    ∀ e ∈ fill settings f songMs effects, e.channels.Obeys f := by
  have laid := resolveOverlaps_obeys h settings.curvePoints
  intro e he
  rcases mem_fill.mp he with he | ⟨g, -, he⟩
  · exact laid e he
  · exact fillGap_obeys settings laid g e he

/-- One blend after another. The later of two blended effects is the earlier of the next two, so
the induction is on those that follow, for any effect they follow. -/
theorem blendFrom_obeys {current : Effect ℚ} {rest : List (Effect ℚ)}
    (h : ∀ e ∈ current :: rest, e.channels.Obeys f) :
    ∀ e ∈ blendFrom settings current rest, e.channels.Obeys f := by
  induction rest generalizing current with
  | nil => exact h
  | cons next rest ih =>
    obtain ⟨hcurrent, hnext, hrest⟩ :=
      (List.forall_mem_cons.mp h).imp_right List.forall_mem_cons.mp
    obtain ⟨earlier, later⟩ := Effect.blended_obeys hcurrent hnext settings
    exact List.forall_mem_cons.mpr ⟨earlier, ih (List.forall_mem_cons.mpr ⟨later, hrest⟩)⟩

theorem blend_obeys (h : ∀ e ∈ effects, e.channels.Obeys f) :
    ∀ e ∈ blend settings effects, e.channels.Obeys f := by
  unfold blend
  split
  · exact List.forall_mem_nil _
  · split
    · exact h
    · exact blendFrom_obeys settings h

/-- **Drawing and blending keep a head in its windows.** -/
theorem finish_obeys (h : ∀ e ∈ effects, e.channels.Obeys f) :
    ∀ e ∈ finish settings effects, e.channels.Obeys f := by
  refine blend_obeys settings fun e he => ?_
  obtain ⟨o, ho, rfl⟩ := List.mem_map.mp he
  exact Effect.drawn_obeys (h o (mem_sorted.mp ho)) _

end Timeline

end MovingLight
