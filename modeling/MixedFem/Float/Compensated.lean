import MixedFem.Float.Fused

/-!
# Error-free transformations and fast fused multiply-add

* `twoSum a b` : the rounded sum `s` and its error `e`, with `s + e = a + b` exactly;
* `splitHalves x` : `x = hi + lo` with `hi` of at most 26 significant bits, exactly;
* `twoProduct a b` : the rounded product `p` and its error `e`, with `p + e = a * b` exactly;
* `addOdd a b` : `a + b` rounded to odd: the sum if it is a float, otherwise the one of the two
  floats around it whose last significand bit is one;
* `fusedMulAdd`, `fusedMulAdd32` : `a * b + c` rounded once, as `BinaryFormat.fusedMulAdd`
  computes it, by the transformations above where their conditions are met.

The transformations are exact when nothing overflows and nothing falls below the normal range.
A value rounded to odd with at least two bits more than the target keeps every bit that
rounding to nearest needs: a tie stays a tie, and a value above or below a midpoint stays on
its side. So for `a * b = p + e` and `c + p = s + t`, rounding `s + addOdd t e` to nearest
rounds the exact `a * b + c`; and a single-precision `a * b + c`, whose product is exact in
double precision, is `addOdd (a * b) c` rounded to single precision.

Operands outside the ranges where this is certain (very large or very small magnitudes,
infinities, NaNs) go through the exact computation of `Float/Fused`.
-/

namespace MixedFem

/-- The rounded sum and its exact error, for finite sums that do not overflow. -/
def twoSum (a b : Float) : Float × Float :=
  let s := a + b
  let bb := s - a
  (s, (a - (s - bb)) + (b - bb))

/-- `x` as a high part of at most 26 significant bits and the exact rest. -/
def splitHalves (x : Float) : Float × Float :=
  let g := 134217729.0 * x
  let hi := g - (g - x)
  (hi, x - hi)

/-- The rounded product and its exact error, for products whose parts stay in the normal
range. -/
def twoProduct (a b : Float) : Float × Float :=
  let p := a * b
  let (ah, al) := splitHalves a
  let (bh, bl) := splitHalves b
  (p, ((ah * bh - p) + ah * bl + al * bh) + al * bl)

/-- `a + b` rounded to odd. A nonzero error moves an even rounded sum one step toward the exact
sum, onto its odd neighbour; a rounded sum of zero is always exact. -/
def addOdd (a b : Float) : Float :=
  let (s, e) := twoSum a b
  if e == 0.0 || s.toBits % 2 == 1 then s
  else if (0.0 < e) == (0.0 < s) then Float.ofBits (s.toBits + 1)
  else Float.ofBits (s.toBits - 1)

/-- The biased exponent field of a `Float`. -/
def biasedExponent (x : Float) : Nat := (x.toBits >>> 52 &&& 0x7FF).toNat

/-- `2^-300 ≤ |x| < 2^300`: products of two such values and their errors stay normal. -/
def productSafe (x : Float) : Bool :=
  let b := biasedExponent x
  723 ≤ b && b < 1323

/-- `2^-600 ≤ |x| < 2^600`: a sum with a product of two `productSafe` values stays normal. -/
def addendSafe (x : Float) : Bool :=
  let b := biasedExponent x
  423 ≤ b && b < 1623

/-- `a * b + c` rounded once. With a zero addend the result is the rounded product; with a zero
factor it is the sum of the signed zero product and `c`; both are single roundings. -/
def fusedMulAdd (a b c : Float) : Float :=
  if productSafe a && productSafe b then
    if c == 0.0 then a * b
    else if addendSafe c then
      let (p, e) := twoProduct a b
      let (s, t) := twoSum c p
      s + addOdd t e
    else fusedMulAddExact a b c
  else if (a == 0.0 || b == 0.0) && a.isFinite && b.isFinite && c.isFinite then a * b + c
  else fusedMulAddExact a b c

/-- `a * b + c` on `Float32`, rounded once: the product is exact in double precision, the sum is
rounded to odd there, and the result to single precision. -/
def fusedMulAdd32 (a b c : Float32) : Float32 :=
  if a.isFinite && b.isFinite && c.isFinite then (addOdd (a.toFloat * b.toFloat) c.toFloat).toFloat32
  else fusedMulAdd32Exact a b c

end MixedFem
