import MovingLight.Channel.Shift
import MovingLight.Proofs.Checked
import MovingLight.Rig.Axis

/-!
# Levels and channels, checked

Every level a channel takes has been limited to some bounds. The bounds are those of all
levels, those of the unit interval, or the limits of an axis. Only the last come from a
rig, and a rig may name them in either order: `Axis.limits` puts them in order first, so
`Limits.clampChecked`, which stops at limits that run backwards, never meets any that do.

A point curve is read through its neighbours, two points at a time.
-/

namespace MovingLight

section

variable {α : Type}

/-- A colour changed by an evaluation that may stop. -/
def Color.mapChecked (f : ChannelValue α → Checked (ChannelValue α)) : Color α → Checked (Color α)
  | wheel v => do return wheel (← f v)
  | rgb r g b => .ok (rgb r g b)

/-- A channel set changed by an evaluation that may stop. -/
def ChannelSet.mapChecked (f : ChannelValue α → Checked (ChannelValue α)) (s : ChannelSet α) :
    Checked (ChannelSet α) := do
  return {
    pan := ← f s.pan
    tilt := ← f s.tilt
    dimmer := ← f s.dimmer
    shutter := ← s.shutter.mapM f
    color := ← s.color.mapM (Color.mapChecked f)
    gobo := ← s.gobo.mapM f }

@[simp]
theorem Color.mapChecked_ok (g : ChannelValue α → ChannelValue α) :
    Color.mapChecked (fun v => .ok (g v)) = fun c => .ok (c.map g) := by
  funext c
  cases c <;> rfl

@[simp]
theorem ChannelSet.mapChecked_ok (g : ChannelValue α → ChannelValue α) (s : ChannelSet α) :
    s.mapChecked (fun v => .ok (g v)) = .ok (s.map g) := by
  simp [ChannelSet.mapChecked, ChannelSet.map]

end

variable {α : Type} [Scalar α]

/-! ## Levels -/

/-- A value brought between limits, which must not run backwards. -/
def Limits.clampChecked (l : Limits) (x : α) : Checked α :=
  Checked.clamp (l.min.toNat : α) (l.max.toNat : α) x

/-- The bounds of a window as limits. -/
def Window.limits (w : Window) : Limits := ⟨w.lo, w.hi⟩

/-- The limits of an axis, the smaller of its two ends first. -/
def Axis.limits (a : Axis) : Limits := ⟨min a.minDmx a.maxDmx, max a.maxDmx a.minDmx⟩

theorem Axis.limits_eq (a : Axis) : a.limits = a.window.limits := by
  have lower : ∀ x y : UInt8, min x y = if x ≤ y then x else y := fun _ _ => rfl
  have upper : ∀ x y : UInt8, max x y = if x ≤ y then y else x := fun _ _ => rfl
  rw [Axis.limits, Axis.window, Window.between, lower, upper]
  split
  case isTrue forwards =>
    split
    case isTrue backwards =>
      exact congrArg (Limits.mk a.minDmx) (UInt8.le_antisymm forwards backwards)
    case isFalse => rfl
  case isFalse backwards =>
    rw [if_pos ((UInt8.le_total a.minDmx a.maxDmx).resolve_left backwards)]
    rfl

def Dmx.levelChecked (x : α) : Checked UInt8 := do
  let x ← Checked.clamp 0 255 (Scalar.round x)
  return (Scalar.toNat x).toUInt8

def Limits.atPercentChecked (l : Limits) (percent : α) : Checked α := do
  let unit ← Checked.clampUnit (percent / 100)
  return (l.min.toNat : α) + unit * l.span

def Axis.dmxOfChecked (a : Axis) (degrees : α) : Checked α :=
  a.limits.clampChecked ((a.centerDmx.toNat : α) + degrees * a.dmxPerDegree)

section

variable [Scalar.OrderLaws α]

@[simp]
theorem Window.clampChecked_ok (w : Window) (x : α) : w.limits.clampChecked x = .ok (w.clamp x) :=
  Checked.clamp_ok (Scalar.OrderLaws.byte_le_byte _ _ w.lo_le_hi) x

example : Limits.clampChecked ⟨200, 10⟩ (5 : Float32) = .error .bounds := by rfl

@[simp]
theorem Dmx.levelChecked_ok (x : α) : Dmx.levelChecked x = .ok (Dmx.level x) := by
  simp [Dmx.levelChecked, Dmx.level]

@[simp]
theorem Limits.atPercentChecked_ok (l : Limits) (percent : α) :
    l.atPercentChecked percent = .ok (l.atPercent percent) := by
  simp [Limits.atPercentChecked, Limits.atPercent]

@[simp]
theorem Axis.dmxOfChecked_ok (a : Axis) (degrees : α) :
    a.dmxOfChecked degrees = .ok (a.dmxOf degrees) := by
  simp [Axis.dmxOfChecked, Axis.dmxOf, Axis.limits_eq]

end

/-! ## Waves -/

def Wave.sampleWithPhaseChecked (w : Wave α) (t phaseDeg : α) : Checked α := do
  let t ← Checked.clampUnit t
  let turns := w.cycles * t + w.p1 / 100 + phaseDeg / 360
  let unit ← Checked.clampUnit (w.height t turns)
  return w.min + unit * (w.max - w.min)

@[simp]
theorem Wave.sampleWithPhaseChecked_ok [Scalar.OrderLaws α] (w : Wave α) (t phaseDeg : α) :
    w.sampleWithPhaseChecked t phaseDeg = .ok (w.sampleWithPhase t phaseDeg) := by
  simp [Wave.sampleWithPhaseChecked, Wave.sampleWithPhase]

/-! ## Point curves -/

/-- The stretches of two neighbouring items. -/
def neighbours {β : Type} : List β → List (List β)
  | a :: b :: rest => [a, b] :: neighbours (b :: rest)
  | _ => []

namespace Curve

/-- The values of `f` at `count` evenly spaced times, at least two. -/
def sampledChecked (count : Nat) (f : α → Checked α) : Checked (Curve α) :=
  let count := max count 2
  (List.range count).mapM fun i => do
    let t := Scalar.evenTime i count
    return ⟨t, ← f t⟩

/-- The value at `t` on the first stretch whose end is not before `t`, or the given one
after all of them. -/
def valueAlongChecked (t after : α) : List (List (CurvePoint α)) → Checked α
  | [] => .ok after
  | stretch :: rest => do
    let p ← Checked.item stretch 0
    let n ← Checked.item stretch 1
    if t ≤ n.t then
      if Scalar.abs (n.t - p.t) < 0.000001 then return n.value
      else
        let u ← Checked.clampUnit ((t - p.t) / (n.t - p.t))
        return Scalar.between p.value n.value u
    else valueAlongChecked t after rest

/-- The value at a time; a curve without points has none. -/
def valueAtChecked? (c : Curve α) (t : α) : Checked (Option α) :=
  match c with
  | [] => .ok none
  | first :: rest =>
    if t ≤ first.t then .ok (some first.value)
    else do
      return some (← valueAlongChecked t
        ((first :: rest).getLast (List.cons_ne_nil first rest)).value (neighbours (first :: rest)))

def truncatedChecked (c : Curve α) (ratio : α) : Checked (Curve α) := do
  match ← c.valueAtChecked? ratio with
  | none => return c
  | some cut =>
    if ratio ≤ Scalar.epsilon then return flat cut 2
    else
      return (c.filter fun p => p.t < ratio).map (fun p => ⟨p.t / ratio, p.value⟩) ++ [⟨1, cut⟩]

@[simp]
theorem sampledChecked_ok (g : α → α) (count : Nat) :
    sampledChecked count (fun t => .ok (g t)) = .ok (sampled count g) := by
  simp [sampledChecked, sampled]

variable [Scalar.OrderLaws α]

/-- Reading along the neighbours of a curve is reading on from its first point. -/
theorem valueAlongChecked_ok (t : α) (p : CurvePoint α) (rest : Curve α) :
    valueAlongChecked t ((p :: rest).getLast (List.cons_ne_nil p rest)).value
        (neighbours (p :: rest)) = .ok (valueAfter t p rest) := by
  induction rest generalizing p with
  | nil => rfl
  | cons n rest ih =>
    rw [neighbours, valueAlongChecked, valueAfter, List.getLast_cons (List.cons_ne_nil n rest),
      ih n]
    simp

@[simp]
theorem valueAtChecked?_ok (c : Curve α) (t : α) : c.valueAtChecked? t = .ok (c.valueAt? t) := by
  cases c with
  | nil => rfl
  | cons first rest =>
    rw [valueAtChecked?, valueAt?]
    split
    case isTrue => rfl
    case isFalse => simp only [valueAlongChecked_ok, Checked.ok_bind, Checked.pure_eq_ok]

@[simp]
theorem truncatedChecked_ok (c : Curve α) (ratio : α) :
    c.truncatedChecked ratio = .ok (c.truncated ratio) := by
  rw [truncatedChecked, truncated, valueAtChecked?_ok, Checked.ok_bind]
  cases c.valueAt? ratio with
  | none => rfl
  | some cut => simp

end Curve

/-! ## Channels -/

/-- The value at a time between zero and one; a curve without points is dark. -/
def ChannelValue.valueAtChecked (v : ChannelValue α) (t : α) : Checked α :=
  match v with
  | hold level => .ok (level.toNat : α)
  | wave w => w.sampleWithPhaseChecked t 0
  | curve c => do return (← c.valueAtChecked? t).getD 0

def ChannelValue.truncatedChecked (v : ChannelValue α) (ratio : α) (count : Nat) :
    Checked (ChannelValue α) := do
  let ratio ← Checked.clampUnit ratio
  if 1 - 0.000001 ≤ ratio then return v
  else
    match v with
    | hold level => return hold level
    | wave w =>
      return curve (← Curve.sampledChecked count fun t => w.sampleWithPhaseChecked (t * ratio) 0)
    | curve c => return curve (← c.truncatedChecked ratio)

def reflectedChecked (middle value : α) : Checked α := Checked.clamp 0 255 (2 * middle - value)

def ChannelValue.shiftedChecked (v : ChannelValue α) (phaseDeg : α) (invert : Bool) (count : Nat) :
    Checked (ChannelValue α) :=
  let phase := Scalar.emod phaseDeg 360
  if Scalar.abs phase < 0.0001 && !invert then .ok v
  else
    match v with
    | .hold level => .ok (.hold level)
    | .wave w => do
      let middle := (w.min + w.max) / 2
      return .curve <| ← Curve.sampledChecked count fun t => do
        let x ← w.sampleWithPhaseChecked t phase
        if invert then reflectedChecked middle x else return x
    | .curve c => do
      let middle := c.middle
      return .curve <| ← Curve.sampledChecked count fun t => do
        let x := (← c.valueAtChecked? (Scalar.emod (t + phase / 360) 1)).getD 0
        if invert then reflectedChecked middle x else return x

variable [Scalar.OrderLaws α]

@[simp]
theorem ChannelValue.valueAtChecked_ok (v : ChannelValue α) (t : α) :
    v.valueAtChecked t = .ok (v.valueAt t) := by
  cases v with
  | hold level => rfl
  | wave w => exact w.sampleWithPhaseChecked_ok t 0
  | curve c => simp [ChannelValue.valueAtChecked, ChannelValue.valueAt, Curve.valueAt]

@[simp]
theorem ChannelValue.truncatedChecked_ok (v : ChannelValue α) (ratio : α) (count : Nat) :
    v.truncatedChecked ratio count = .ok (v.truncated ratio count) := by
  unfold ChannelValue.truncatedChecked ChannelValue.truncated
  cases v with
  | hold level => simp
  | wave w => simp [Wave.sample]
  | curve c => simp

@[simp]
theorem reflectedChecked_ok (middle value : α) :
    reflectedChecked middle value = .ok (reflected middle value) :=
  Checked.clamp_full_ok _

@[simp]
theorem ChannelValue.shiftedChecked_ok (v : ChannelValue α) (phaseDeg : α) (invert : Bool)
    (count : Nat) :
    v.shiftedChecked phaseDeg invert count = .ok (v.shifted phaseDeg invert count) := by
  unfold ChannelValue.shiftedChecked ChannelValue.shifted
  cases v with
  | hold level => simp
  | wave w => simp
  | curve c => simp [Curve.valueAt]

end MovingLight
