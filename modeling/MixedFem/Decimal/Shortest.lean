import MixedFem.Float.Binary

/-!
# Shortest decimal digits of a binary value

* `Decimal` : `digits * 10^exponent`;
* `Decimal.shortest` : of the decimals that read back as a finite positive binary value, one
  with the fewest digits, and of those the nearest to the value, an exact tie broken as a `Tie`
  says (to even digits, or up);
* `Decimal.ofFloat`, `Decimal.ofFloat32` : the same for the magnitudes of `Float` and `Float32`.

A value `m * 2^e` reads back from every real in its rounding interval, which reaches half-way to
each neighbour; the ends belong to it exactly when `m` is even. Working in units of `2^(e-2)`
the value is `4m`, the upper end `4m + 2`, and the lower end `4m - 2`, or `4m - 1` when the
neighbour below is closer (the significand is a power of two above the subnormal range).
-/

namespace MixedFem

/-- A decimal number `digits * 10^exponent`. -/
structure Decimal where
  digits : Nat
  exponent : Int
  deriving Repr, BEq

/-- How an exact tie between the two nearest candidates is broken. -/
inductive Tie where
  /-- The candidate whose last digit is even. -/
  | toEven
  /-- The greater candidate. -/
  | up
  deriving BEq

namespace Decimal

/-- `a / b` rounded up. -/
def ceilDiv (a b : Nat) : Nat := (a + b - 1) / b

/-- The rounding interval of a value, in units of `2^(e-2)` and scaled so that comparing
`d * 10^k` with it is a comparison of naturals. -/
structure Interval where
  low : Nat
  value : Nat
  high : Nat
  /-- Whether the two ends read back as the value. -/
  closed : Bool
  /-- The interval is `[low, high] * num / den`. -/
  num : Nat
  den : Nat

/-- The decimals `d * 10^k` inside the interval: the least and the greatest `d`. -/
def Interval.range (i : Interval) (k : Int) : Nat × Nat :=
  let a := i.den * Nat.pow 10 k.toNat
  let b := i.num * Nat.pow 10 (-k).toNat
  let lo := i.low * b
  let hi := i.high * b
  let dmin := if lo % a = 0 then (if i.closed then lo / a else lo / a + 1) else ceilDiv lo a
  let dmax := if hi % a = 0 ∧ ¬ i.closed then hi / a - 1 else hi / a
  (dmin, dmax)

/-- The `d` with `d * 10^k` nearest to the value, a tie broken by `tie`, kept in
`[dmin, dmax]`. -/
def Interval.nearest (tie : Tie) (i : Interval) (k : Int) (dmin dmax : Nat) : Nat :=
  let a := i.den * Nat.pow 10 k.toNat
  let v := i.value * (i.num * Nat.pow 10 (-k).toNat)
  let q := v / a
  let r := v % a
  let d := if a < 2 * r ∨ (2 * r = a ∧ (tie == .up ∨ q % 2 = 1)) then q + 1 else q
  min dmax (max dmin d)

/-- Searches `k, k - 1, …` for the first power of ten with a multiple inside the interval. -/
def Interval.search (tie : Tie) (i : Interval) : Nat → Int → Decimal
  | 0, k => ⟨i.nearest tie k 0 0, k⟩
  | fuel + 1, k =>
      let (dmin, dmax) := i.range k
      if 0 < dmin ∧ dmin ≤ dmax then ⟨i.nearest tie k dmin dmax, k⟩ else i.search tie fuel (k - 1)

/-- Some `d * 10^k` with `d > 0` lies in the interval. A multiple of `10^(k+1)` is a multiple
of `10^k`, so this holds below every `k` where it holds. -/
def Interval.hits (i : Interval) (k : Int) : Bool :=
  let (dmin, dmax) := i.range k
  0 < dmin && dmin ≤ dmax

/-- The greatest `k` from `lo` below `hi` that `hits`, by bisection, when `lo` hits and `hi`
does not. -/
def Interval.greatestHit (i : Interval) : Nat → Int → Int → Int
  | 0, lo, _ => lo
  | fuel + 1, lo, hi =>
      if hi ≤ lo + 1 then lo
      else
        let mid := (lo + hi).fdiv 2
        if i.hits mid then i.greatestHit fuel mid hi else i.greatestHit fuel lo mid

/-- The decimal at the greatest `k ≤ top` that `hits`. When `low` hits and `top` does not, the
bisection between them finds it; otherwise `k` goes down from `top` one step at a time. -/
def Interval.best (tie : Tie) (i : Interval) (top low : Int) : Decimal :=
  if !i.hits top && i.hits low then
    let k := i.greatestHit 64 low top
    let (dmin, dmax) := i.range k
    ⟨i.nearest tie k dmin dmax, k⟩
  else i.search tie 60 top

/-- The shortest decimal that reads back as the finite positive value `m * 2^e` of a format
whose smallest significand of the exponent `e` is `2^(precision-1)`, or whose `e` is the
smallest exponent (`lowest`). -/
def shortest (tie : Tie) (precision : Nat) (lowest : Bool) (m : Nat) (e : Int) : Decimal :=
  let lowerGap := if m = Nat.pow 2 (precision - 1) ∧ ¬ lowest then 1 else 2
  let i : Interval :=
    { low := 4 * m - lowerGap, value := 4 * m, high := 4 * m + 2, closed := m % 2 = 0,
      num := Nat.pow 2 (e - 2).toNat, den := Nat.pow 2 (2 - e).toNat }
  -- `10^k` exceeds the upper end for this `k`, since `0.30103 > log10 2`
  let t : Int := (Nat.log2 (4 * m + 2) : Int) + 1 + (e - 2)
  let k := (t * 30103).fdiv 100000 + 2
  -- `10^low` is below a third of the interval's length `3 * 2^(e-2)`, so a multiple fits
  let low := ((e - 2) * 30103).fdiv 100000 - 2
  i.best tie k low

/-- The shortest decimal of the magnitude of a finite nonzero value of a binary format. -/
def ofBinary (tie : Tie) (f : BinaryFormat) (m : Nat) (e : Int) : Decimal :=
  shortest tie f.precision (e == f.minQuantum) m e

/-- Number of decimal digits of `n` (one for zero). -/
def digitCount (n : Nat) : Nat := (Nat.toDigits 10 n).length

end Decimal

end MixedFem
