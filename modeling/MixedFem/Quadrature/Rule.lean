/-!
# Quadrature rules

* `Rule P W` : weights in `W` (`Float` unless said otherwise) and points in `P`;
* `Rule.integrate` : the weighted sum of a function over the points, added from the first
  term on, starting from `-0.0` so that an empty rule or a sum of negative zeros is `-0.0`;
* `QuadratureError` : no rule meets the request.
-/

namespace MixedFem

/-- A quadrature rule: a weight for each point. -/
structure Rule (P : Type) (W : Type := Float) where
  weights : Array W
  points : Array P

/-- No rule is available for the requested accuracy. -/
inductive QuadratureError where
  | noRuleAvailable
  deriving Repr, BEq

/-- The text of a quadrature error. -/
def QuadratureError.message : QuadratureError → String
  | .noRuleAvailable => "There is no quadrature rule satisfying the requirements available"

/-- The neutral element of floating-point sums: `-0.0`, since `-0.0 + x = x` for every `x`. -/
def sumStart : Float := -0.0

/-- `r * a^n` by binary powering: `r` takes the factor `a^(2^i)` for each set bit `i` of `n`,
lowest first, and no square is formed past the last bit. -/
def powFrom (r a : Float) (n : Nat) : Float :=
  if n = 0 then r else
  let r := if n % 2 = 1 then r * a else r
  if n / 2 = 0 then r else powFrom r (a * a) (n / 2)
termination_by n
decreasing_by omega

/-- `x^n` by binary powering. -/
def powNat (x : Float) (n : Nat) : Float := powFrom 1.0 x n

/-- `x^n` for an integer exponent: binary powering on the magnitude of `n`, and for a negative `n`
the reciprocal of that power. -/
def powInt (x : Float) (n : Int) : Float :=
  if n < 0 then 1.0 / powFrom 1.0 x n.natAbs else powFrom 1.0 x n.toNat

/-- The sum of a sequence of floats, from the first term on. -/
def floatSum (xs : Array Float) : Float := xs.foldl (· + ·) sumStart

namespace Rule

/-- `Σ wᵢ f(pᵢ)`, summed from the first point on. -/
def integrate {P : Type} (r : Rule P) (f : P → Float) : Float :=
  (r.weights.zip r.points).foldl (fun acc (w, p) => acc + w * f p) sumStart

/-- A rule with the same weights and mapped points. -/
def mapPoints {P Q W : Type} (r : Rule P W) (g : P → Q) : Rule Q W := ⟨r.weights, r.points.map g⟩

end Rule

end MixedFem
