import MixedFem.Decimal.Text

/-!
# Decimal text with a fixed number of places

* `Decimal.roundRatio` : `n / d` rounded to the nearest integer, a tie to the even one;
* `Decimal.leadingExponent` : the decimal exponent of the leading digit of a fraction;
* `NumberStyle.writeFixed` : a `Float` with `p` digits after the point (`23.950000`,
  `-0.000000`);
* `NumberStyle.writeExponent` : a `Float` as one digit, a point, `p` more digits and a decimal
  exponent (`1.234e5`, `2.500e-3`, `0.000e0`).

Both round the exact binary value, so a tie arises only when its decimal expansion stops with a
5 just after the last digit kept; the tie goes to the even digit. A negative value keeps its
sign even when it rounds to zero.
-/

namespace MixedFem

namespace Decimal

/-- `n / d` rounded to the nearest integer, a tie to the even one. -/
def roundRatio (n d : Nat) : Nat :=
  let q := n / d
  let r := n % d
  if d < 2 * r ∨ (2 * r = d ∧ q % 2 = 1) then q + 1 else q

/-- The value `m * 2^e` as a fraction `(numerator, denominator)`. -/
def fractionOf (m : Nat) (e : Int) : Nat × Nat :=
  if 0 ≤ e then (m * Nat.pow 2 e.toNat, 1) else (m, Nat.pow 2 (-e).toNat)

/-- `num / den ≥ 10^k`. -/
def atLeastPower (num den : Nat) (k : Int) : Bool :=
  den * Nat.pow 10 k.toNat ≤ num * Nat.pow 10 (-k).toNat

/-- The exponent `k` with `10^k ≤ num / den < 10^(k+1)`, for positive `num` and `den`. With `a`
and `b` the digit counts of `num` and `den`, the quotient lies strictly between `10^(a-b-1)` and
`10^(a-b+1)`, so `k` is `a - b` or one less. -/
def leadingExponent (num den : Nat) : Int :=
  let k : Int := (digitCount num : Int) - digitCount den
  if atLeastPower num den k then k else k - 1

/-- `num / den * 10^p` rounded to the nearest integer, a tie to the even one. -/
def scaledRound (num den : Nat) (p : Int) : Nat :=
  roundRatio (num * Nat.pow 10 p.toNat) (den * Nat.pow 10 (-p).toNat)

end Decimal

namespace NumberStyle

/-- The digits of `q` with a point before the last `p` of them, padded with zeros in front so
that at least one digit stands before the point. -/
def pointed (q p : Nat) : String :=
  let ds := Nat.toDigits 10 q
  let ds := List.replicate (p + 1 - ds.length) '0' ++ ds
  let whole := ds.length - p
  if p = 0 then String.ofList ds
  else String.ofList (ds.take whole) ++ "." ++ String.ofList (ds.drop whole)

/-- The text of a `Float` with `p` digits after the point. -/
def writeFixed (s : NumberStyle) (p : Nat) (x : Float) : String :=
  match BinaryFormat.binary64.decode x.toBits.toNat with
  | .nan => s.nan
  | .infinite neg => if neg then s.negativeInfinity else s.infinity
  | .finite neg m e =>
      let (num, den) := Decimal.fractionOf m e
      (if neg then "-" else "") ++ pointed (Decimal.scaledRound num den p) p

/-- The text of a `Float` as `d.ddd…e±k` with `p` digits after the point; the exponent has no
sign when it is not negative, and zero is written with exponent `0`. -/
def writeExponent (s : NumberStyle) (p : Nat) (x : Float) : String :=
  match BinaryFormat.binary64.decode x.toBits.toNat with
  | .nan => s.nan
  | .infinite neg => if neg then s.negativeInfinity else s.infinity
  | .finite neg m e =>
      let sign := if neg then "-" else ""
      if m = 0 then sign ++ pointed 0 p ++ "e0" else
      let (num, den) := Decimal.fractionOf m e
      let k := Decimal.leadingExponent num den
      let q := Decimal.scaledRound num den (p - k)
      let (q, k) := if q = Nat.pow 10 (p + 1) then (Nat.pow 10 p, k + 1) else (q, k)
      sign ++ pointed q p ++ "e" ++ toString k

end NumberStyle

end MixedFem
