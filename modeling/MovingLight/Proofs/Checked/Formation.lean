import MovingLight.Formation
import MovingLight.Proofs.Checked

/-!
# Formations, checked

Five formations limit one of their parameters to the unit interval, two read a direction
off a table, one draws its offsets at random, and two divide the number of heads or the
place of a head by two. The others have nothing to stop at.

A table is read at a place that is limited to the last entry but one, so that the entry
after it is there too, whatever the position is.
-/

namespace MovingLight

variable {α : Type} [Scalar α]

/-- A value read off an evenly spaced table at a position between zero and one. -/
def presetAtChecked (preset : List α) (position : α) : Checked α :=
  match preset.length with
  | 0 => .ok 0
  | 1 => Checked.item preset 0
  | entries => do
    let x := (← Checked.clampUnit position) * ((entries - 1 : Nat) : α)
    let lower := min (Scalar.toNat (Scalar.floor x)) (← Checked.back entries 2)
    let a ← Checked.item preset lower
    let b ← Checked.item preset (lower + 1)
    return Scalar.between a b (x - (lower : α))

namespace Formation

def progressChecked (p : Params) : Checked α :=
  match p.number? "progress" with
  | some x => Checked.clampUnit x
  | none =>
    let steps := max ((p.whole? "steps").getD 4) 1
    let step := min ((p.whole? "step").getD 0) (steps - 1)
    .ok (if steps = 1 then 1 else Scalar.evenTime step steps)

def placeChevronChecked (p : Params) (base : Movement α) (s : Slot α) : Checked (Movement α) := do
  let spread := p.number "pan_spread_deg" 40
  let tightness ← Checked.clampUnit (p.number "tightness" 0.5)
  let lift := p.number "tilt_lift_deg" 10
  let factor := 0.35 + 0.65 * tightness
  let tilt := if s.distance < 0.6 then lift else 0
  return base.offsetBy (s.side * (s.distance * spread * factor)) tilt

def placePresetChecked (preset : List α) (base : Movement α) (s : Slot α) :
    Checked (Movement α) := do
  return base.offsetBy (← presetAtChecked preset s.position) 0

def placeSpotlightChecked (p : Params) (base : Movement α) (s : Slot α) :
    Checked (Movement α) := do
  let targetPan := p.number "target_pan_deg" 0
  let targetTilt := p.number "target_tilt_deg" 0
  let natural := s.signedDistance * p.number "natural_spacing_deg" 30
  let spread ← Checked.clampUnit (p.number "spread" 0.3)
  return base.offsetBy (targetPan + natural * spread) targetTilt

def placeCrossChecked (p : Params) (base : Movement α) (s : Slot α) : Checked (Movement α) := do
  let panSpread := p.number "pan_spread_deg" 30
  let tiltSpread := p.number "tilt_spread_deg" 15
  let swapped ← Checked.remainder ((p.whole? "swap_phase").getD 0) 2
  let direction : α := if swapped = 1 then -1 else 1
  let left ← Checked.quotient s.count 2
  let right := s.count - left
  let (scale, sign) : α × α :=
    if s.index < left then (((left - s.index : Nat) : α) / (left : α), 1)
    else (((s.index - left + 1 : Nat) : α) / (right : α), -1)
  return base.offsetBy (direction * sign * panSpread * scale)
    (direction * sign * tiltSpread * scale)

def placeAlternatingChecked (p : Params) (base : Movement α) (s : Slot α) :
    Checked (Movement α) := do
  let group : Checked Nat :=
    if p.text "pattern" "every_other" == "pairs" then Checked.quotient s.index 2 else .ok s.index
  let amplitude : α := p.number "tilt_amplitude_deg" 20
  let half ← Checked.remainder (← group) 2
  let (role, sign) : TiltRole × α := if half = 0 then (.up, 1) else (.down, -1)
  return { base with
    tiltRole := some role
    tiltOffsetDeg := base.tiltOffsetDeg + sign * amplitude }

def placeScatterChecked (p : Params) (seed : UInt64) (base : Movement α) (s : Slot α) :
    Checked (Movement α) := do
  let maxPan := Scalar.abs (p.number "max_pan_deg" 30)
  let maxTilt := Scalar.abs (p.number "max_tilt_deg" 15)
  let key := ChaCha.Key.ofSeed seed
  let pan := (← Checked.draw (-1) 1 (ChaCha.word key (2 * s.index))) * maxPan
  let tilt := (← Checked.draw (-1) 1 (ChaCha.word key (2 * s.index + 1))) * maxTilt
  return base.offsetBy pan tilt

/-- The movement of the head in a given slot, where the seed of a scatter is known. -/
def placeChecked (f : Formation) (p : Params) (seed : UInt64) (base : Movement α) (s : Slot α) :
    Checked (Movement α) :=
  match f with
  | chevron => placeChevronChecked p base s
  | audience => placePresetChecked (audiencePreset (p.text "coverage" "medium")) base s
  | spotlight => placeSpotlightChecked p base s
  | wash => placePresetChecked (washPreset (p.text "spacing" "medium")) base s
  | cross => placeCrossChecked p base s
  | centerOut => do return placeRadiating p (← progressChecked p) base s
  | outsideIn => do return placeRadiating p (1 - (← progressChecked p)) base s
  | scatter => placeScatterChecked p seed base s
  | alternating => placeAlternatingChecked p base s
  | other => .ok (other.place p seed base s)

/-- The movement of each selected head, in the order of selection. -/
def distributeChecked (f : Formation) (p : Params) (base : Movement α) (ids : List String) :
    Checked (List (Movement α)) :=
  (Slot.all ids.length).mapM (f.placeChecked p (seed p ids) base)

/-- The movements of a selection by id. -/
def assignChecked (kind : Option String) (p : Params) (base : Movement α) (ids : List String) :
    Checked (List (String × Movement α)) :=
  match kind.bind ofName? with
  | none => .ok (Keyed.lastOfEach (ids.map fun id => (id, base)))
  | some f => do return Keyed.lastOfEach (ids.zip (← f.distributeChecked p base ids))

/-- The parameters set heads apart, in a trial selection of some size. -/
def spreadsChecked (α : Type) [Scalar α] (kind : Option String) (p : Params) : Checked Bool :=
  match kind.bind ofName? with
  | none => .ok false
  | some f =>
    trialSizes.anyM fun n => do
      return anyApart (← f.distributeChecked p (Movement.hold : Movement α) (trialIds n))

end Formation

variable [Scalar.OrderLaws α]

@[simp]
theorem presetAtChecked_ok (preset : List α) (position : α) :
    presetAtChecked preset position = .ok (presetAt preset position) := by
  match preset with
  | [] => rfl
  | [v] => rfl
  | a :: b :: rest =>
    have before : Checked.back (rest.length + 2) 2 = .ok rest.length := Checked.back_ok rfl
    have inside : ∀ place, min place rest.length + 1 < (a :: b :: rest).length := fun place => by
      rw [List.length_cons, List.length_cons]
      omega
    simp only [presetAtChecked, presetAt, List.length_cons, Checked.clampUnit_ok, before,
      Checked.ok_bind]
    rw [Checked.item_getD (Nat.lt_of_succ_lt (inside _)) 0, Checked.item_getD (inside _) 0]
    rfl

namespace Formation

@[simp]
theorem progressChecked_ok (p : Params) : (progressChecked p : Checked α) = .ok (progress p) := by
  cases given : (p.number? "progress" : Option α) with
  | none => simp [progressChecked, progress, given]
  | some x => simp [progressChecked, progress, given]

@[simp]
theorem placeChecked_ok (f : Formation) (p : Params) (seed : UInt64) (base : Movement α)
    (s : Slot α) : f.placeChecked p seed base s = .ok (f.place p seed base s) := by
  cases f with
  | chevron => simp [placeChecked, place, placeChevronChecked, placeChevron]
  | audience | wash => simp [placeChecked, place, placePresetChecked, placePreset]
  | spotlight => simp [placeChecked, place, placeSpotlightChecked, placeSpotlight]
  | cross => simp [placeChecked, place, placeCrossChecked, placeCross]
  | centerOut | outsideIn => simp [placeChecked, place]
  | scatter =>
    simp [placeChecked, place, placeScatterChecked, placeScatter,
      Checked.draw_ok Scalar.OrderLaws.neg_one_le_one]
  | alternating => simp [placeChecked, place, placeAlternatingChecked, placeAlternating]
  | mirror | wave | fan | rainbow | tunnel => rfl

@[simp]
theorem distributeChecked_ok (f : Formation) (p : Params) (base : Movement α)
    (ids : List String) : f.distributeChecked p base ids = .ok (f.distribute p base ids) :=
  Checked.mapM_eq_ok fun s _ => placeChecked_ok f p _ base s

@[simp]
theorem assignChecked_ok (kind : Option String) (p : Params) (base : Movement α)
    (ids : List String) : assignChecked kind p base ids = .ok (assign kind p base ids) := by
  cases known : kind.bind ofName? with
  | none => simp [assignChecked, assign, known]
  | some f => simp [assignChecked, assign, known]

@[simp]
theorem spreadsChecked_ok (kind : Option String) (p : Params) :
    spreadsChecked α kind p = .ok (spreads α kind p) := by
  cases known : kind.bind ofName? with
  | none => simp [spreadsChecked, spreads, known]
  | some f => simp [spreadsChecked, spreads, known]

end Formation

end MovingLight
