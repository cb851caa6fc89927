/-!
# The length of a plane vector

`hypot x y` is `sqrt (x² + y²)` computed as the system's mathematical library does it, in
double precision without fused operations. With `ax ≥ ay ≥ 0` the magnitudes of the arguments,
the kernel takes `h = sqrt (ax² + ay²)` from the rounded sum of squares and corrects it once,
`h - (t₁ + t₂) / 2h`, where `t₁ + t₂` estimates `h² - ax² - ay²` from `δ = h - ay` when
`h ≤ 2 ay` and from `δ = h - ax` otherwise. The result is within one unit in the last place
of the exact length, and is not always the nearest float to it.

Around the kernel:

* an infinite argument gives `+∞`, even beside a NaN, and a NaN otherwise propagates;
* when `ay ≤ 2⁻⁵⁴ ax` the length is `ax + ay`;
* above `2⁵¹¹` both arguments are scaled by `2⁻⁶⁰⁰` and the result back; below `2⁻⁵¹¹` the
  other way round. Powers of two scale exactly, so only the kernel rounds.
-/

namespace MixedFem

namespace Hypot

/-- `2⁻⁶⁰⁰`, the scale for arguments at the ends of the range. -/
def scale : Float := Float.scaleB 1.0 (-600)

/-- `2⁵¹¹`: larger magnitudes are scaled down. -/
def large : Float := Float.scaleB 1.0 511

/-- `2⁻⁵¹¹`: smaller magnitudes are scaled up. -/
def tiny : Float := Float.scaleB 1.0 (-511)

/-- `2⁻⁵⁴`: a part this much smaller than the other only rounds into it. -/
def eps : Float := Float.scaleB 1.0 (-54)

/-- The corrected square root of `ax² + ay²`, for `ax ≥ ay ≥ 0` whose squares neither overflow
nor underflow. -/
def kernel (ax ay : Float) : Float :=
  let h := Float.sqrt (ax * ax + ay * ay)
  let (t1, t2) :=
    if h ≤ 2.0 * ay then
      let delta := h - ay
      (ax * (2.0 * delta - ax), (delta - 2.0 * (ax - ay)) * delta)
    else
      let delta := h - ax
      (2.0 * delta * (ax - 2.0 * ay), (4.0 * delta - ay) * ay + delta * delta)
  h - (t1 + t2) / (2.0 * h)

end Hypot

open Hypot in
/-- The Euclidean length of `(x, y)`. -/
def hypot (x y : Float) : Float :=
  if !x.isFinite || !y.isFinite then
    if x.isInf || y.isInf then 1.0 / 0.0 else x + y
  else
    let x := x.abs
    let y := y.abs
    let ax := if x < y then y else x
    let ay := if x < y then x else y
    if ax > large then
      if ay ≤ ax * eps then ax + ay else kernel (ax * scale) (ay * scale) / scale
    else if ay < tiny then
      if ax ≥ ay / eps then ax + ay else kernel (ax / scale) (ay / scale) * scale
    else if ay ≤ ax * eps then ax + ay
    else kernel ax ay

end MixedFem
