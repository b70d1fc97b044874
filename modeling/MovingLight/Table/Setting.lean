import MovingLight.Effect
import MovingLight.Rig

/-!
# Channel settings — an effect as the player reads it

A player knows numbered DMX channels and nothing of pan or colour. Each
number carries either a slider, one byte for the whole effect, or a curve
descriptor, and never both: where a head has two uses for one number, the
first in the order pan, tilt, dimmer, shutter, gobo, colour has it.

`EffectSettings.encode` is the text a player reads: the settings in order of
their numbers, separated by commas.
-/

namespace MovingLight

/-- What one numbered channel is to carry. -/
inductive Assignment (α : Type) where
  | value (v : ChannelValue α)
  | byte (b : UInt8)

/-- A slider or a curve descriptor. -/
inductive ChannelSetting where
  | slider (level : UInt8)
  | curve (descriptor : String)
  deriving DecidableEq, Repr

/-- The settings of one effect, in order of channel numbers. -/
structure EffectSettings where
  channels : List (Nat × ChannelSetting)
  deriving DecidableEq, Repr

section Assign

variable {α : Type}

/-- The assignment of a channel that is patched and of which something is
said. -/
def ChannelMap.assign? (number : Option Nat) (v : Option (ChannelValue α)) :
    List (Nat × Assignment α) :=
  match number, v with
  | some n, some v => [(n, .value v)]
  | _, _ => []

/-- The assignments of a colour: a position of the wheel needs the colour
channel, a mixture needs red, green and blue. -/
def ChannelMap.assignColor (m : ChannelMap) : Option (Color α) → List (Nat × Assignment α)
  | some (.wheel v) => ChannelMap.assign? m.color (some v)
  | some (.rgb r g b) =>
    match m.red, m.green, m.blue with
    | some rn, some gn, some bn => [(rn, .byte r), (gn, .byte g), (bn, .byte b)]
    | _, _, _ => []
  | none => []

/-- Every assignment of a channel set, the one that counts most first. -/
def ChannelMap.available (m : ChannelMap) (c : ChannelSet α) : List (Nat × Assignment α) :=
  [(m.pan, .value c.pan), (m.tilt, .value c.tilt), (m.dimmer, .value c.dimmer)] ++
    ChannelMap.assign? m.shutter c.shutter ++ ChannelMap.assign? m.gobo c.gobo ++
    m.assignColor c.color

/-- A sorted list of which only the first entry of each number stays. -/
def firstOfEach : List (Nat × Assignment α) → List (Nat × Assignment α)
  | a :: b :: rest =>
    if a.1 = b.1 then firstOfEach (a :: rest) else a :: firstOfEach (b :: rest)
  | as => as
termination_by as => as.length

/-- The assignments of a channel set in order of their numbers, one for each
number. -/
def ChannelMap.assignments (m : ChannelMap) (c : ChannelSet α) : List (Nat × Assignment α) :=
  firstOfEach ((m.available c).mergeSort fun a b => a.1 ≤ b.1)

end Assign

section Descriptors

variable {α : Type} [Scalar α]

/-- The descriptor of a wave on a numbered channel. -/
def Wave.descriptor (number : Nat) (w : Wave α) : String :=
  let num (x : α) := Scalar.fixed 2 x
  "Active=TRUE|Id=ID_VALUECURVE_DMX" ++ toString number ++
    "|Type=" ++ w.shape.playerName ++
    "|Min=" ++ num w.min ++ "|Max=" ++ num w.max ++
    "|P1=" ++ num w.p1 ++ "|P2=" ++ num w.p2 ++ "|P3=" ++ num w.p3 ++ "|P4=" ++ num w.p4 ++
    "|RV=TRUE|"

/-- A point as a player reads it: time and level, both from zero to one. -/
def CurvePoint.descriptor (p : CurvePoint α) : String :=
  Scalar.fixed 3 (Scalar.clampUnit p.t) ++ ":" ++ Scalar.fixed 3 (Scalar.clampUnit (p.value / 255))

/-- The descriptor of a curve on a numbered channel. -/
def Curve.descriptor (number : Nat) (c : Curve α) : String :=
  "Active=TRUE|Id=ID_VALUECURVE_DMX" ++ toString number ++
    "|Type=Custom|Min=0.00|Max=255.00|RV=TRUE|Values=" ++
    ";".intercalate (c.map CurvePoint.descriptor) ++ "|"

/-- The setting of a numbered channel. -/
def Assignment.setting (number : Nat) : Assignment α → ChannelSetting
  | byte b => .slider b
  | value (.hold level) => .slider level
  | value (.wave w) => .curve (w.descriptor number)
  | value (.curve c) => .curve (c.descriptor number)

/-- The settings of an effect on a head. -/
def Effect.settings (e : Effect α) (f : Fixture α) : EffectSettings :=
  ⟨(f.channels.assignments e.channels).map fun a => (a.1, a.2.setting a.1)⟩

end Descriptors

/-- The text of one setting. -/
def ChannelSetting.encode (number : Nat) : ChannelSetting → String
  | slider level => "E_SLIDER_DMX" ++ toString number ++ "=" ++ toString level.toNat
  | curve descriptor => "E_VALUECURVE_DMX" ++ toString number ++ "=" ++ descriptor

/-- The text of all settings. -/
def EffectSettings.encode (s : EffectSettings) : String :=
  ",".intercalate (s.channels.map fun c => c.2.encode c.1)

end MovingLight
