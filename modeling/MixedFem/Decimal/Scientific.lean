import MixedFem.Float.Binary
import MixedFem.Decimal.Shortest

/-!
# Reading decimal scientific notation

* `Decimal.toBinaryBits f negative digits exponent` : the bits of the value of format `f`
  nearest to `±digits * 10^exponent` (ties to even), by exact integer arithmetic;
* `Decimal.toFloat` : the same for `Float`;
* `Decimal.keepDigits`, `Decimal.dropZeros` : a significand cut to a number of digits with a
  digit `1` standing for the rest, and trailing zeros dropped from its last digits.

A positive power of ten is `5^k * 2^k`, an exact dyadic; for a negative one the quotient by
`5^k` is taken to at least 56 bits and a remainder marks a value strictly above it, which
rounds like the exact quotient since no tie lies between them.
-/

namespace MixedFem

namespace Decimal

/-- The bits of the value of `f` nearest to `±digits * 10^exponent`. Values below `10^-340`
round to zero and values from `10^320` up to an infinity in both formats. -/
def toBinaryBits (f : BinaryFormat) (negative : Bool) (digits : Nat) (exponent : Int) : Nat :=
  let count : Int := (Nat.toDigits 10 digits).length
  if digits = 0 ∨ count + exponent < -340 then f.roundBits negative 0 0
  else if 320 < count + exponent then f.infinityBits negative
  else if 0 ≤ exponent then f.roundBits negative (digits * Nat.pow 5 exponent.toNat) exponent
  else
    let k := (-exponent).toNat
    let den := Nat.pow 5 k
    let shift := 60 + Nat.log2 den - Nat.log2 digits
    let num := digits * Nat.pow 2 shift
    let q := num / den
    let sticky := if num % den = 0 then 0 else 1
    f.roundBits negative (2 * q + sticky) (-(shift : Int) - k - 1)

/-- The `Float` nearest to `±digits * 10^exponent`. -/
def toFloat (negative : Bool) (digits : Nat) (exponent : Int) : Float :=
  Float.ofBits (toBinaryBits .binary64 negative digits exponent).toUInt64

/-- Drops the trailing zeros of the last `k` digits of `digits * 10^exponent`, raising the
exponent for each: the value is unchanged. -/
def dropZeros : Nat → Nat → Int → Nat × Int
  | 0, digits, exponent => (digits, exponent)
  | k + 1, digits, exponent =>
      if digits ≠ 0 ∧ digits % 10 = 0 then dropZeros k (digits / 10) (exponent + 1)
      else (digits, exponent)

/-- `digits * 10^exponent` with at most `limit + 1` digits: a longer significand is cut to its
first `limit` digits and a digit `1` is put after them, a value strictly between the cut one and
the next, which stands for the digits cut off whatever they are. -/
def keepDigits (limit digits : Nat) (exponent : Int) : Nat × Int :=
  let count := digitCount digits
  if count ≤ limit then (digits, exponent)
  else (digits / Nat.pow 10 (count - limit) * 10 + 1, exponent + ((count - limit : Nat) : Int) - 1)

end Decimal

end MixedFem
