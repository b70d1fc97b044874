import MovingLight.Document
import MovingLight.Json.Printer
import MovingLight.Proofs.Show
import MovingLight.Scalar.Single
import MovingLight.Table
import MovingLight.Proofs.Scalar.Exact
import MovingLight.Proofs.Window
import MovingLight.Proofs.Curve.Range
import MovingLight.Proofs.Curve.Monotone
import MovingLight.Proofs.Curve.Smooth
import MovingLight.Proofs.Channel.Window
import MovingLight.Proofs.Formation
import MovingLight.Proofs.Segment
import MovingLight.Proofs.Timeline.Window
import MovingLight.Proofs.Show.Window
import MovingLight.Proofs.Channel.Ends
import MovingLight.Proofs.Show.Agreement
import MovingLight.Proofs.Table
import MovingLight.Proofs.Timeline.Finish
import MovingLight.Proofs.Timeline.Crossfade
import MovingLight.Proofs.Show.Failure
import MovingLight.Proofs.Scalar.Share
import MovingLight.Proofs.Show.Order
import MovingLight.Proofs.Scalar.Order
import MovingLight.Proofs.Checked
import MovingLight.Proofs.Checked.Channel
import MovingLight.Proofs.Checked.Smooth
import MovingLight.Proofs.Checked.Formation
import MovingLight.Proofs.Checked.Rig
import MovingLight.Proofs.Checked.Segment
import MovingLight.Proofs.Checked.Blend
import MovingLight.Proofs.Checked.Fill
import MovingLight.Proofs.Checked.Show
import MovingLight.Proofs.Table.Index
import MovingLight.Proofs.Table.Listing
import MovingLight.Proofs.Timeline.Idle
import MovingLight.Proofs.Table.Text
import MovingLight.Proofs.Curve.Rise
import MovingLight.Proofs.Timeline.Horizon
import MovingLight.Proofs.Scalar.Level
import MovingLight.Proofs.Timeline.Dark
import MovingLight.Proofs.Timeline.Neighbour
import MovingLight.Proofs.Timeline.Seam
import MovingLight.Proofs.Curve.Reading
import MovingLight.Proofs.Channel.Trim
import MovingLight.Proofs.Channel.Mirror
import MovingLight.Proofs.Rig.Union
import MovingLight.Proofs.Scalar.Nearest
import MovingLight.Proofs.Scalar.Monotone
import MovingLight.Proofs.Scalar.Amid
import MovingLight.Proofs.Rig.Slot
import MovingLight.Proofs.Formation.Frame
import MovingLight.Proofs.Formation.Trial
import MovingLight.Proofs.Rig.Range
import MovingLight.Proofs.Rig.Nobody
import MovingLight.Proofs.Scalar.Portion
import MovingLight.Proofs.Segment.Tiling
import MovingLight.Proofs.Timeline.Extent
import MovingLight.Proofs.Table.Layer
import MovingLight.Proofs.Table.Assignment
import MovingLight.Proofs.Formation.Placing
import MovingLight.Proofs.Formation.Symmetry
import MovingLight.Proofs.Curve.Redraw
import MovingLight.Proofs.Rig.Group
import MovingLight.Proofs.Formation.Wave
import MovingLight.Proofs.Random
import MovingLight.Proofs.Formation.Scatter
import MovingLight.Proofs.Channel.Dimmer
import MovingLight.Proofs.Timeline.Reach
import MovingLight.Proofs.Table.Decimal
import MovingLight.Proofs.Table.Curve
