import MovingLight.Proofs.Checked.Smooth

/-!
# Blending, checked

A machine blends the effects of a head in place. It goes from boundary to boundary by the
place of the later effect, divides the list there, and takes the last effect before and
the first one after. Boundaries are counted from one, so there is always an effect before,
and no further than the last effect, so there is always one after:
`Timeline.foldlM_blendBoundary_ok` follows the machine along the list.
-/

namespace MovingLight

variable {α : Type} [Scalar α]

/-- The two channels of neighbouring effects blended at their boundary. What they show there
is read off before either is changed. -/
def ChannelValue.blendedChecked (current next : ChannelValue α) (currentMs nextMs : Nat)
    (blendMs : α) (count : Nat) : Checked (ChannelValue α × ChannelValue α) := do
  let atEnd ← current.valueAtChecked 1
  let atStart ← next.valueAtChecked 0
  let same := match current, next with
    | .hold a, .hold b => a == b
    | _, _ => false
  if same then return (current, next)
  else
    match current.points? count, next.points? count with
    | some tail, some head =>
      return (.curve (tail.map (CurvePoint.pulled .tail (currentMs : α) blendMs atStart)),
        .curve (head.map (CurvePoint.pulled .head (nextMs : α) blendMs atEnd)))
    | _, _ => return (current, next)

/-- The channels of neighbouring effects blended at their boundary. -/
def ChannelSet.blendedChecked (current next : ChannelSet α) (currentMs nextMs : Nat)
    (blendMs : α) (count : Nat) : Checked (ChannelSet α × ChannelSet α) := do
  let blend (a b : ChannelValue α) := a.blendedChecked b currentMs nextMs blendMs count
  let pan ← blend current.pan next.pan
  let tilt ← blend current.tilt next.tilt
  let dimmer ← blend current.dimmer next.dimmer
  let shutter : Checked (Option (ChannelValue α) × Option (ChannelValue α)) :=
    match current.shutter, next.shutter with
    | some a, some b => do
      let s ← blend a b
      return (some s.1, some s.2)
    | a, b => .ok (a, b)
  let shutter ← shutter
  return ({ current with pan := pan.1, tilt := tilt.1, dimmer := dimmer.1, shutter := shutter.1 },
    { next with pan := pan.2, tilt := tilt.2, dimmer := dimmer.2, shutter := shutter.2 })

/-- Two neighbours blended at their boundary. -/
def Effect.blendedChecked (settings : Settings α) (current next : Effect α) :
    Checked (Effect α × Effect α) :=
  match current.blendLength? settings next with
  | none => .ok (current, next)
  | some blendMs => do
    let c ← current.channels.blendedChecked next.channels current.durationMs next.durationMs
      blendMs (max settings.curvePoints 2)
    return ({ current with channels := c.1 }, { next with channels := c.2 })

namespace Timeline

/-- The effects of one head with those on both sides of a boundary blended. -/
def blendBoundaryChecked (settings : Settings α) (effects : List (Effect α)) (i : Nat) :
    Checked (List (Effect α)) := do
  let (before, after) ← Checked.splitAt effects i
  let place ← Checked.back i 1
  let current ← Checked.item before place
  let next ← Checked.item after 0
  let pair ← current.blendedChecked settings next
  return (← Checked.replace before place pair.1) ++ (← Checked.replace after 0 pair.2)

/-- The drawn effects of one head, blended at every boundary. -/
def blendChecked (settings : Settings α) (effects : List (Effect α)) :
    Checked (List (Effect α)) :=
  if effects.any (·.channels.hasWave) then .ok effects
  else (List.range' 1 (effects.length - 1)).foldlM (blendBoundaryChecked settings) effects

/-- The effects of one head in order, drawn and blended. -/
def finishChecked (settings : Settings α) (effects : List (Effect α)) :
    Checked (List (Effect α)) := do
  blendChecked settings
    (← (sorted effects).mapM (Effect.drawnChecked (max settings.curvePoints 2)))

end Timeline

variable [Scalar.OrderLaws α]

@[simp]
theorem ChannelValue.blendedChecked_ok (current next : ChannelValue α) (currentMs nextMs : Nat)
    (blendMs : α) (count : Nat) :
    current.blendedChecked next currentMs nextMs blendMs count =
      .ok (current.blended next currentMs nextMs blendMs count) := by
  unfold ChannelValue.blendedChecked ChannelValue.blended ChannelValue.startValue
    ChannelValue.endValue
  cases current <;> cases next <;> simp [ChannelValue.points?]

@[simp]
theorem ChannelSet.blendedChecked_ok (current next : ChannelSet α) (currentMs nextMs : Nat)
    (blendMs : α) (count : Nat) :
    current.blendedChecked next currentMs nextMs blendMs count =
      .ok (current.blended next currentMs nextMs blendMs count) := by
  unfold ChannelSet.blendedChecked ChannelSet.blended
  simp only [ChannelValue.blendedChecked_ok, Checked.ok_bind, Checked.pure_eq_ok]
  cases current.shutter <;> cases next.shutter <;> rfl

@[simp]
theorem Effect.blendedChecked_ok (settings : Settings α) (current next : Effect α) :
    current.blendedChecked settings next = .ok (current.blended settings next) := by
  unfold Effect.blendedChecked Effect.blended
  cases current.blendLength? settings next with
  | none => rfl
  | some blendMs => simp

namespace Timeline

/-- At the place after the current effect the list divides into what is done, the current
effect being the last of it, and what follows. -/
theorem blendBoundaryChecked_ok (settings : Settings α) (done : List (Effect α))
    (current next : Effect α) (rest : List (Effect α)) :
    blendBoundaryChecked settings (done ++ current :: next :: rest) (done.length + 1) =
      .ok (done ++ (current.blended settings next).1 ::
        (current.blended settings next).2 :: rest) := by
  have divided : Checked.splitAt (done ++ current :: next :: rest) (done.length + 1) =
      .ok (done ++ [current], next :: rest) := by
    have h := Checked.splitAt_ok (done ++ [current]) (next :: rest)
    rwa [List.length_append, List.append_assoc] at h
  simp only [blendBoundaryChecked, divided, Checked.ok_bind,
    Checked.back_ok (rfl : done.length + 1 = _), Checked.item_last, Checked.item_cons_zero,
    Effect.blendedChecked_ok, Checked.replace_last, Checked.replace_cons_zero,
    Checked.pure_eq_ok, List.append_assoc]
  rfl

/-- **A machine goes along the list as the blending does**: what is done stays, and what
follows is blended from the current effect on. -/
theorem foldlM_blendBoundary_ok (settings : Settings α) (done : List (Effect α))
    (current : Effect α) (rest : List (Effect α)) :
    (List.range' (done.length + 1) rest.length).foldlM (blendBoundaryChecked settings)
      (done ++ current :: rest) = .ok (done ++ blendFrom settings current rest) := by
  induction rest generalizing done current with
  | nil => rfl
  | cons next rest ih =>
    have later := ih (done ++ [(current.blended settings next).1])
      (current.blended settings next).2
    rw [List.length_append, List.append_assoc, List.append_assoc] at later
    rw [List.length_cons, List.range'_succ, List.foldlM_cons, blendBoundaryChecked_ok,
      Checked.ok_bind, blendFrom]
    exact later

@[simp]
theorem blendChecked_ok (settings : Settings α) (effects : List (Effect α)) :
    blendChecked settings effects = .ok (blend settings effects) := by
  cases effects with
  | nil => rfl
  | cons e rest =>
    rw [blendChecked, blend]
    split
    case isTrue => rfl
    case isFalse => exact foldlM_blendBoundary_ok settings [] e rest

@[simp]
theorem finishChecked_ok (settings : Settings α) (effects : List (Effect α)) :
    finishChecked settings effects = .ok (finish settings effects) := by
  simp [finishChecked, finish]

end Timeline

end MovingLight
