import MovingLight.Proofs.Timeline.Gap
import MovingLight.Timeline.Blend

/-!
# Drawing and blending — only channels change

The last step of a head's timeline redraws every curve and pulls neighbours
towards each other, sample by sample. All of an effect but its channels is its
`Effect.Frame`, and `finish_frames` says that the frames come out as they went
in, one for each effect and in order.

What `Order` and `Gap` say of a timeline, that effects take turns and that time
is idle, they say of the frames alone. The second half of this module carries
both across any two lists with the same frames, so that they hold of a finished
timeline because they hold of a filled one.
-/

namespace MovingLight

variable {α : Type}

/-! ## Frames -/

/-- All of an effect but its channels. -/
structure Effect.Frame where
  fixtureId : String
  startMs : Nat
  endMs : Nat
  boundary : Boundary
  label : String
  metadata : List (String × Json)

/-- The frame of an effect. -/
def Effect.frame (e : Effect α) : Effect.Frame :=
  ⟨e.fixtureId, e.startMs, e.endMs, e.boundary, e.label, e.metadata⟩

section Finish

variable [Scalar α]

@[simp] theorem Effect.drawn_frame (count : Nat) (e : Effect α) :
    (e.drawn count).frame = e.frame := rfl

/-- A blend leaves both of its frames alone. -/
theorem Effect.blended_frames (settings : Settings α) (current next : Effect α) :
    (current.blended settings next).1.frame = current.frame ∧
      (current.blended settings next).2.frame = next.frame := by
  unfold Effect.blended
  split <;> exact ⟨rfl, rfl⟩

namespace Timeline

variable (settings : Settings α)

/-- One blend after another. The later of two blended effects is the earlier of the next two, so
the induction is on those that follow, for any effect they follow. -/
theorem blendFrom_frames (current : Effect α) (rest : List (Effect α)) :
    (blendFrom settings current rest).map Effect.frame =
      current.frame :: rest.map Effect.frame := by
  induction rest generalizing current with
  | nil => rfl
  | cons next rest ih =>
    obtain ⟨earlier, later⟩ := current.blended_frames settings next
    rw [blendFrom, List.map_cons, ih, earlier, later, List.map_cons]

theorem blend_frames (effects : List (Effect α)) :
    (blend settings effects).map Effect.frame = effects.map Effect.frame := by
  unfold blend
  split
  · rfl
  · split
    · rfl
    · rw [blendFrom_frames, List.map_cons]

/-- **The last step of a timeline puts its effects in order and changes nothing but channels.** -/
theorem finish_frames (effects : List (Effect α)) :
    (finish settings effects).map Effect.frame = (sorted effects).map Effect.frame := by
  rw [finish, blend_frames, List.map_map]
  exact List.map_congr_left fun e _ => e.drawn_frame _

end Timeline

end Finish

/-! ## What frames decide -/

namespace Timeline

variable {effects others : List (Effect α)}

/-- Every effect has one with the same frame in a list with the same frames. -/
theorem exists_frame (same : others.map Effect.frame = effects.map Effect.frame) {e : Effect α}
    (he : e ∈ others) : ∃ o ∈ effects, o.frame = e.frame :=
  List.mem_map.mp (same ▸ List.mem_map_of_mem he)

/-- The same of the times alone. -/
theorem exists_span (same : others.map Effect.frame = effects.map Effect.frame) {e : Effect α}
    (he : e ∈ others) : ∃ o ∈ effects, o.startMs = e.startMs ∧ o.endMs = e.endMs := by
  obtain ⟨o, ho, frame_eq⟩ := exists_frame same he
  exact ⟨o, ho, congrArg Effect.Frame.startMs frame_eq, congrArg Effect.Frame.endMs frame_eq⟩

theorem InTurn.of_frames (h : InTurn effects)
    (same : others.map Effect.frame = effects.map Effect.frame) : InTurn others := by
  constructor
  · intro e he
    obtain ⟨o, ho, starts, ends⟩ := exists_span same he
    have lasts := h.lasts o ho
    unfold Effect.Lasts at lasts ⊢
    rw [← starts, ← ends]
    exact lasts
  · -- the order of two effects is the order of their frames
    have framed : (effects.map Effect.frame).Pairwise fun a b => a.endMs ≤ b.startMs :=
      List.pairwise_map.mpr h.turns
    rw [← same] at framed
    exact List.pairwise_map.mp framed

theorem Free.of_frames {a b : Nat} (h : Free effects a b)
    (same : others.map Effect.frame = effects.map Effect.frame) : Free others a b := by
  intro e he time hat htb hactive
  obtain ⟨o, ho, starts, ends⟩ := exists_span same he
  refine h o ho time hat htb ?_
  unfold Effect.ActiveAt at hactive ⊢
  rw [starts, ends]
  exact hactive

/-- An interval is a longest one for both of two lists with the same frames, or for neither. -/
theorem Idle.of_frames {songMs a b : Nat} (h : Idle songMs effects a b)
    (same : others.map Effect.frame = effects.map Effect.frame) : Idle songMs others a b where
  lt := h.lt
  inside := h.inside
  free := h.free.of_frames same
  longest a' b' ha hb hsong hfree := h.longest a' b' ha hb hsong (hfree.of_frames same.symm)

end Timeline

end MovingLight
