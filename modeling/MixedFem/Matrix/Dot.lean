import MixedFem.Scalar

/-!
# Dot products of long vectors

* `vectorDot x y` : `Σ x_i y_i`, summed in eight interleaved lanes: lane `k` adds the products
  at `k, k + 8, k + 16, …` over the whole blocks of eight, the lanes are folded into the result
  in the pairs `(0, 4), (1, 5), (2, 6), (3, 7)`, and the products past the last whole block are
  added one by one;
* `vectorNorm x` : `sqrt (0 + vectorDot x x)`.
-/

namespace MixedFem

variable {ρ : Type} [RealScalar ρ]

/-- Lane `k` of the blocked dot product: the products at `k, k + 8, …` over `blocks` blocks. -/
def dotLane (x y : Array ρ) (blocks k : Nat) : ρ := Id.run do
  let mut acc : ρ := Scalar.zero
  for c in [0:blocks] do
    acc := acc + x[8 * c + k]! * y[8 * c + k]!
  return acc

/-- The dot product of two vectors of equal length, in eight interleaved lanes. -/
def vectorDot (x y : Array ρ) : ρ := Id.run do
  let blocks := x.size / 8
  let lane := dotLane x y blocks
  let mut res : ρ := Scalar.zero
  res := res + (lane 0 + lane 4)
  res := res + (lane 1 + lane 5)
  res := res + (lane 2 + lane 6)
  res := res + (lane 3 + lane 7)
  for i in [8 * blocks:x.size] do
    res := res + x[i]! * y[i]!
  return res

/-- The Euclidean norm. -/
def vectorNorm (x : Array ρ) : ρ := RealScalar.sqrt (Scalar.zero + vectorDot x x)

end MixedFem
