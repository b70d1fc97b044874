import MovingLight.Formation.Params
import MovingLight.Movement
import MovingLight.Random
import MovingLight.Rig.Slot

/-!
# Formations — one movement spread over the heads it is for

A formation takes the movement of an instruction and gives each selected
head a changed one: offsets in degrees that spread the heads, a phase that
lets them run after one another, a role in tilt that sets them against each
other. It changes nothing else. Thirteen formations place a head by its slot
alone; the scatter also looks at who is selected, to seed itself.

Two questions about a formation decide how a step is rendered:

* `Formation.sharesCurve`: do all heads follow one curve, moved about, or
  does each need its own?
* `Formation.spreads`: do these parameters set heads apart at all? This is
  judged on selections of two, three and four heads.
-/

namespace MovingLight

/-- The formations. -/
inductive Formation where
  | mirror
  | wave
  | fan
  | chevron
  | audience
  | rainbow
  | spotlight
  | tunnel
  | wash
  | cross
  | centerOut
  | outsideIn
  | scatter
  | alternating
  deriving DecidableEq, Repr

namespace Formation

def all : List Formation :=
  [mirror, wave, fan, chevron, audience, rainbow, spotlight, tunnel, wash, cross, centerOut,
    outsideIn, scatter, alternating]

/-- The name in plans. -/
def name : Formation → String
  | mirror => "mirror_lr"
  | wave => "wave_lr"
  | fan => "fan"
  | chevron => "chevron_v"
  | audience => "audience_scan"
  | rainbow => "rainbow_arc"
  | spotlight => "spotlight_cluster"
  | tunnel => "tunnel_cone"
  | wash => "wall_wash"
  | cross => "x_cross"
  | centerOut => "center_out"
  | outsideIn => "outside_in"
  | scatter => "scattered_chaos"
  | alternating => "alternating_updown"

/-- The formation of a given name. -/
def ofName? (s : String) : Option Formation := all.find? (·.name == s)

/-- All heads follow one curve and only stand in different places. -/
def sharesCurve : Formation → Bool
  | mirror | fan | chevron | rainbow | spotlight | centerOut | outsideIn => true
  | _ => false

variable {α : Type} [Scalar α]

/-! ## Tables -/

/-- The directions of an audience scan, from left to right. -/
def audiencePreset : String → List α
  | "narrow" => [-15, -5, 5, 15]
  | "wide" => [-45, -15, 15, 45]
  | "full" => [-60, -20, 20, 60]
  | _ => [-30, -10, 10, 30]

/-- The directions of a wall wash, from left to right. -/
def washPreset : String → List α
  | "tight" => [0, 0, 0, 0]
  | "wide" => [-30, -10, 10, 30]
  | _ => [-15, -5, 5, 15]

/-- How far a step-by-step formation has got, from zero to one: given
outright, or as a step out of a number of steps. -/
def progress (p : Params) : α :=
  match p.number? "progress" with
  | some x => Scalar.clampUnit x
  | none =>
    let steps := max ((p.whole? "steps").getD 4) 1
    let step := min ((p.whole? "step").getD 0) (steps - 1)
    if steps = 1 then 1 else Scalar.evenTime step steps

/-! ## Placing by slot -/

/-- Both sides spread outwards, and tilt with the distance from the middle. -/
def placeMirror (p : Params) (base : Movement α) (s : Slot α) : Movement α :=
  let panSpread := p.number "pan_spread_deg" 30
  let tiltShared := p.number "tilt_offset_deg" 0
  let tiltSpread := p.number "tilt_spread_deg" 0
  base.offsetBy (s.signedDistance * panSpread) (tiltShared + s.distance * tiltSpread)

/-- A travelling wave: the same movement, later from head to head. -/
def placeWave (p : Params) (base : Movement α) (s : Slot α) : Movement α :=
  let n := max s.count 1
  let spacing := (p.number? "phase_spacing").getD (360 / (n : α))
  let step := if p.text "direction" "forward" == "reverse" then n - 1 - s.index else s.index
  base.withPhase (base.phaseDeg + (step : α) * spacing)

/-- Beams spread like a fan about a common direction. -/
def placeFan (p : Params) (base : Movement α) (s : Slot α) : Movement α :=
  let spread := p.number "pan_spread_deg" 60
  let center := p.number "center_offset_deg" 0
  base.offsetBy ((s.position - 0.5) * spread + center) 0

/-- A wedge whose inner heads are lifted. -/
def placeChevron (p : Params) (base : Movement α) (s : Slot α) : Movement α :=
  let spread := p.number "pan_spread_deg" 40
  let tightness := Scalar.clampUnit (p.number "tightness" 0.5)
  let lift := p.number "tilt_lift_deg" 10
  let factor := 0.35 + 0.65 * tightness
  let tilt := if s.distance < 0.6 then lift else 0
  base.offsetBy (s.side * (s.distance * spread * factor)) tilt

/-- Directions read off a table. -/
def placePreset (preset : List α) (base : Movement α) (s : Slot α) : Movement α :=
  base.offsetBy (presetAt preset s.position) 0

/-- An arc, highest in the middle unless it is told to be flat. -/
def placeRainbow (p : Params) (base : Movement α) (s : Slot α) : Movement α :=
  let arc := p.number "arc_width_deg" 90
  let lift := p.number "tilt_lift_deg" 15
  let edge := 2 * Scalar.abs (s.position - 0.5)
  let tilt := if p.flag "curved" true then lift * (1 - edge * edge) else 0
  base.offsetBy (-arc / 2 + s.position * arc) tilt

/-- Beams drawn together on one spot. -/
def placeSpotlight (p : Params) (base : Movement α) (s : Slot α) : Movement α :=
  let targetPan := p.number "target_pan_deg" 0
  let targetTilt := p.number "target_tilt_deg" 0
  let natural := s.signedDistance * p.number "natural_spacing_deg" 30
  let spread := Scalar.clampUnit (p.number "spread" 0.3)
  base.offsetBy (targetPan + natural * spread) targetTilt

/-- Heads spread around a circle. -/
def placeTunnel (p : Params) (base : Movement α) (s : Slot α) : Movement α :=
  let center := p.number "center_pan_deg" 0
  let spread := p.number "pan_spread_deg" 60
  let radius := p.number "radius" 1
  let angle := (s.index : α) * 360 / ((max s.count 1 : Nat) : α) * Scalar.degree
  base.offsetBy (center + Scalar.cos angle * spread / 2) (Scalar.sin angle * radius * 10)

/-- Two halves that aim across each other; the outermost heads aim furthest.
The middle head of an odd number belongs to the right half. -/
def placeCross (p : Params) (base : Movement α) (s : Slot α) : Movement α :=
  let panSpread := p.number "pan_spread_deg" 30
  let tiltSpread := p.number "tilt_spread_deg" 15
  let direction : α := if (p.whole? "swap_phase").getD 0 % 2 = 1 then -1 else 1
  let left := s.count / 2
  let right := s.count - left
  let (scale, sign) : α × α :=
    if s.index < left then (((left - s.index : Nat) : α) / (left : α), 1)
    else (((s.index - left + 1 : Nat) : α) / (right : α), -1)
  base.offsetBy (direction * sign * panSpread * scale) (direction * sign * tiltSpread * scale)

/-- Heads spread outwards, as far as the progress says. -/
def placeRadiating (p : Params) (reach : α) (base : Movement α) (s : Slot α) : Movement α :=
  base.offsetBy ((s.position - 0.5) * 2 * p.number "max_spread_deg" 45 * reach) 0

/-- Heads, or pairs of heads, tilted up and down in turn. -/
def placeAlternating (p : Params) (base : Movement α) (s : Slot α) : Movement α :=
  let group := if p.text "pattern" "every_other" == "pairs" then s.index / 2 else s.index
  let amplitude : α := p.number "tilt_amplitude_deg" 20
  let (role, sign) : TiltRole × α := if group % 2 = 0 then (.up, 1) else (.down, -1)
  { base with
    tiltRole := some role
    tiltOffsetDeg := base.tiltOffsetDeg + sign * amplitude }

/-! ## Scatter -/

/-- The seed of a selection: a hash of the ids in order, each closed by a
zero byte, so the order they are named in does not matter. -/
def seedOf (ids : List String) : UInt64 :=
  let sorted := ids.mergeSort fun a b => !(b < a)
  let bytes := sorted.flatMap fun id => id.toUTF8.toList ++ [0]
  bytes.foldl (fun hash b => (hash ^^^ b.toUInt64) * 0x100000001b3) 0xcbf29ce484222325

/-- Random offsets. The slot alone decides which words of the stream it
draws, so more heads change nothing for the first ones. -/
def placeScatter (p : Params) (seed : UInt64) (base : Movement α) (s : Slot α) : Movement α :=
  let maxPan := Scalar.abs (p.number "max_pan_deg" 30)
  let maxTilt := Scalar.abs (p.number "max_tilt_deg" 15)
  let key := ChaCha.Key.ofSeed seed
  let pan := draw (-1) 1 (ChaCha.word key (2 * s.index)) * maxPan
  let tilt := draw (-1) 1 (ChaCha.word key (2 * s.index + 1)) * maxTilt
  base.offsetBy pan tilt

/-! ## Spreading -/

/-- The movement of the head in a given slot, where the seed of a scatter is
known. -/
def place (f : Formation) (p : Params) (seed : UInt64) (base : Movement α) (s : Slot α) :
    Movement α :=
  match f with
  | mirror => placeMirror p base s
  | wave => placeWave p base s
  | fan => placeFan p base s
  | chevron => placeChevron p base s
  | audience => placePreset (audiencePreset (p.text "coverage" "medium")) base s
  | rainbow => placeRainbow p base s
  | spotlight => placeSpotlight p base s
  | tunnel => placeTunnel p base s
  | wash => placePreset (washPreset (p.text "spacing" "medium")) base s
  | cross => placeCross p base s
  | centerOut => placeRadiating p (progress p) base s
  | outsideIn => placeRadiating p (1 - progress p) base s
  | scatter => placeScatter p seed base s
  | alternating => placeAlternating p base s

/-- The seed of a scatter: given as a parameter, or that of the selection. -/
def seed (p : Params) (ids : List String) : UInt64 :=
  match p.whole? "seed" with
  | some n => UInt64.ofNat n
  | none => seedOf ids

/-- The movement of each selected head, in the order of selection. -/
def distribute (f : Formation) (p : Params) (base : Movement α) (ids : List String) :
    List (Movement α) :=
  (Slot.all ids.length).map (f.place p (seed p ids) base)

/-- The movements of a selection by id. Without a formation, or with one
nobody knows, every head does the same. -/
def assign (kind : Option String) (p : Params) (base : Movement α) (ids : List String) :
    List (String × Movement α) :=
  match kind.bind ofName? with
  | none => Keyed.lastOfEach (ids.map fun id => (id, base))
  | some f => Keyed.lastOfEach (ids.zip (f.distribute p base ids))

/-- Each of `count` heads needs a curve of its own. -/
def needsOwnCurves (kind : Option String) (count : Nat) : Bool :=
  1 < count && match kind.bind ofName? with
    | none => false
    | some f => !f.sharesCurve

/-- Some of the movements differ from the first. -/
def anyApart : List (Movement α) → Bool
  | [] => false
  | m :: ms => ms.any (·.differsSpatially m)

/-- The sizes of selection on which `spreads` is judged; several formations
treat odd and even numbers differently. -/
def trialSizes : List Nat := [2, 3, 4]

/-- The ids of a trial selection. -/
def trialIds (count : Nat) : List String :=
  (List.range count).map fun i => "synthetic" ++ toString (i + 1)

end Formation

/-- The parameters set heads apart, in a trial selection of some size. The
scalars are those of `α`. -/
def Formation.spreads (α : Type) [Scalar α] (kind : Option String) (p : Params) : Bool :=
  match kind.bind ofName? with
  | none => false
  | some f =>
    trialSizes.any fun n => anyApart (f.distribute p (Movement.hold : Movement α) (trialIds n))

end MovingLight
