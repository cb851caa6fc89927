import MixedFem.Quadrature.Rule
import MixedFem.Violation

/-!
# Gauss–Legendre rules on `[-1, 1]`

* `legendre n x` : `(P_n(x), P_n'(x))` by the three-term recurrence;
* `gauss n` : the `n`-point rule; its nodes are the roots of `P_n`, found by Newton's method from
  `cos (π (i + 3/4) / (n + 1/2))`, and its weights are `2 / ((1 - x²) P_n'(x)²)`. The rule is
  filled symmetrically from both ends; the points ascend. `n = 0` is refused.
-/

namespace MixedFem

/-- `(P_n(x), P_n'(x))`, the Legendre polynomial of degree `n` and its derivative. -/
def legendre (n : Nat) (x : Float) : Float × Float :=
  let (pPrev, p) := (List.range n).foldl (fun (pPrev, p) m =>
      let m := m.toFloat
      (p, ((2.0 * m + 1.0) * x * p - m * pPrev) / (m + 1.0))) ((0.0 : Float), (1.0 : Float))
  let dp := if n = 0 then 0.0 else n.toFloat * (x * p - pPrev) / (x * x - 1.0)
  (p, dp)

/-- π to double precision. -/
def piFloat : Float := 3.141592653589793

/-- At most this many Newton steps refine a node. -/
def newtonSteps : Nat := 100

/-- Newton's method for a root of `P_n` from `x`, with `dp` the last derivative; it stops after
the first step of size at most `1e-15`, taking the derivative at the new point. -/
def newtonRoot (n : Nat) : Nat → Float → Float → Float × Float
  | 0, x, dp => (x, dp)
  | fuel + 1, x, _ =>
      let (p, dp) := legendre n x
      let dx := p / dp
      let x := x - dx
      if dx.abs ≤ 1e-15 then (x, (legendre n x).2) else newtonRoot n fuel x dp

/-- The node and weight of index `i` from the right end. -/
def gaussPair (n i : Nat) : Float × Float :=
  let x0 := (piFloat * (i.toFloat + 0.75) / (n.toFloat + 0.5)).cos
  let (x, dp) := newtonRoot n newtonSteps x0 1.0
  (x, 2.0 / ((1.0 - x * x) * dp * dp))

/-- The `n`-point Gauss–Legendre rule. There must be at least one point, and fewer than `2^60`,
so that the eight-byte entries of its arrays can be addressed by a 64-bit byte count. -/
def gauss (n : Nat) : Except Violation (Rule Float) := do
  Violation.require (0 < n) "number of points must be positive"
  Violation.require (n < Nat.pow 2 60) "capacity overflow"
  let pairs := (List.range ((n + 1) / 2)).map (gaussPair n)
  let init : Rule Float := ⟨Array.replicate n 0.0, Array.replicate n 0.0⟩
  return pairs.zipIdx.foldl (fun r ((x, w), i) =>
      ⟨(r.weights.set! i w).set! (n - 1 - i) w, (r.points.set! i (-x)).set! (n - 1 - i) x⟩) init

end MixedFem
