import MovingLight.Rig
import MovingLight.Text.Numeral

/-!
# Settings

What a show leaves to the house: how long a gap must be to be filled and to
be filled in three phases, where idle heads rest, how finely curves are drawn
and how long blends last. Settings come from a document or from a flat table
of texts, where an entry that cannot be read leaves the default.
-/

namespace MovingLight

/-- The share of a large gap that each of its three phases takes. -/
structure GapSplit (α : Type) where
  rampOut : α
  hold : α
  rampIn : α
  deriving DecidableEq, Repr

namespace GapSplit

variable {α : Type} [Scalar α]

/-- Two long ramps about a short rest. -/
def standard : GapSplit α := ⟨0.4, 0.2, 0.4⟩

def parts (s : GapSplit α) : List α := [s.rampOut, s.hold, s.rampIn]

/-- The shares brought to a sum of one. Shares that are no shares, or whose
sum is nothing, give way to the standard split. -/
def normalized (s : GapSplit α) : GapSplit α :=
  let total := s.parts.foldl (· + ·) (-0)
  if s.parts.any (fun p => !Scalar.isFinite p || decide (p < 0)) || decide (total ≤ Scalar.epsilon)
  then standard
  else ⟨s.rampOut / total, s.hold / total, s.rampIn / total⟩

end GapSplit

/-- The settings of a show. -/
structure Settings (α : Type) where
  /-- A gap this long is filled in three phases. -/
  largeGapMs : Nat
  /-- A shorter gap than this is left alone. -/
  minGapMs : Nat
  /-- Where a head rests that does not say so itself. -/
  softHome : Pose α
  /-- The number of points of a drawn curve. -/
  curvePoints : Nat
  /-- The length of a blend that asks for none. -/
  defaultBlendMs : Nat
  /-- The largest share of either neighbour that a blend may cover. -/
  blendFraction : α
  gapSplit : GapSplit α
  shutterOpen : UInt8
  shutterClosed : UInt8
  deriving DecidableEq, Repr

namespace Settings

variable {α : Type} [Scalar α]

/-- The settings of a house that says nothing. -/
def standard : Settings α where
  largeGapMs := 5000
  minGapMs := 100
  softHome := ⟨0, 0⟩
  curvePoints := 25
  defaultBlendMs := 500
  blendFraction := 0.3
  gapSplit := .standard
  shutterOpen := 255
  shutterClosed := 0

/-- A whole number of a flat table, up to `bound`. -/
def wholeEntry (table : List (String × String)) (bound : Nat) (key : String) : Option Nat :=
  (table.lookup key).bind fun v => Text.whole? bound (Text.trim v)

/-- A finite number of a flat table. -/
def scalarEntry (table : List (String × String)) (key : String) (default : α) : α :=
  ((table.lookup key).bind fun v => Scalar.ofText? (Text.trim v)).getD default

/-- The settings of a flat table of texts. Keys nobody knows are passed over,
and an entry that cannot be read leaves the default. -/
def ofTable (table : List (String × String)) : Settings α :=
  let whole := wholeEntry table Text.maxWord
  let byte := wholeEntry table 255
  let base : Settings α := standard
  { largeGapMs := (whole "large_gap_threshold_ms").getD base.largeGapMs
    minGapMs := (whole "min_gap_ms").getD base.minGapMs
    softHome :=
      ⟨scalarEntry table "soft_home_pan_deg" base.softHome.panDeg,
        scalarEntry table "soft_home_tilt_deg" base.softHome.tiltDeg⟩
    curvePoints := ((whole "curve_points").map (max · 2)).getD base.curvePoints
    defaultBlendMs := (whole "default_blend_ms").getD base.defaultBlendMs
    blendFraction :=
      Scalar.clamp 0 0.5 (scalarEntry table "blend_window_fraction" base.blendFraction)
    gapSplit :=
      GapSplit.normalized
        ⟨scalarEntry table "gap_ramp_out" base.gapSplit.rampOut,
          scalarEntry table "gap_hold" base.gapSplit.hold,
          scalarEntry table "gap_ramp_in" base.gapSplit.rampIn⟩
    shutterOpen := ((byte "shutter_open").map Nat.toUInt8).getD base.shutterOpen
    shutterClosed := ((byte "shutter_closed").map Nat.toUInt8).getD base.shutterClosed }

end Settings

/-- Where a head rests: where it says itself, or where the settings say. -/
def Fixture.restingPose {α : Type} (f : Fixture α) (settings : Settings α) : Pose α :=
  f.resting.getD settings.softHome

end MovingLight
