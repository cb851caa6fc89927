import MixedFem.Quadrature.Rule
import MixedFem.Float.Binary64

/-!
# Rules on the reference triangle `(0,0), (1,0), (0,1)`

* `triangleRule s` : a rule exact for polynomials of total degree at most `s`: the centroid
  for `s ≤ 1`, one orbit of three points for `s = 2`, two orbits for `s ≤ 4`; none above. Its
  weights and points are doubles, each computed from the constants of the rule with rounding;
* `triangleRuleFloat s` : the same rule in `Float`.
-/

namespace MixedFem

/-- The three points `(a, a), (1 - 2a, a), (a, 1 - 2a)`, each with weight `w`. -/
def orbit (a w : Binary64) : Rule (Binary64 × Binary64) Binary64 :=
  let b := 1.0 - 2.0 * a
  ⟨#[w, w, w], #[(a, a), (b, a), (a, b)]⟩

/-- Two rules side by side. -/
def Rule.append {P W : Type} (r s : Rule P W) : Rule P W :=
  ⟨r.weights ++ s.weights, r.points ++ s.points⟩

/-- A rule on the reference triangle exact up to total degree `strength`. -/
def triangleRule (strength : Nat) :
    Except QuadratureError (Rule (Binary64 × Binary64) Binary64) :=
  if strength ≤ 1 then .ok ⟨#[0.5], #[(1.0 / 3.0, 1.0 / 3.0)]⟩
  else if strength = 2 then .ok (orbit (1.0 / 6.0) (1.0 / 6.0))
  else if strength ≤ 4 then
    .ok ((orbit 0.44594849091596488632 (0.5 * 0.22338158967801146570)).append
      (orbit 0.09157621350977074346 (0.5 * 0.10995174365532186764)))
  else .error .noRuleAvailable

/-- The rule `triangleRule strength` in `Float`. -/
def triangleRuleFloat (strength : Nat) : Except QuadratureError (Rule (Float × Float)) :=
  (triangleRule strength).map fun r =>
    ⟨r.weights.map Binary64.toFloat, r.points.map fun (x, y) => (x.toFloat, y.toFloat)⟩

end MixedFem
