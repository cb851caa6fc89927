import MixedFem.Float.Fused
import MixedFem.Decimal.Scientific

/-!
# Doubles by their bits

The constants of the numerical code are doubles, and so are the few values computed from them
before the code runs (the points of a quadrature rule, a default tolerance). Kept as bit
patterns, with each operation of the format computed exactly and rounded once, they have their
value in the logic as well as on the machine, where `Float` holds the same bits.

* `Binary64` : a double by its bits; `Binary64.toFloat`, `Binary64.ofFloat`;
* literals are read by `Decimal.toBinaryBits`, natural numbers rounded by `roundBits`;
* `BinaryFormat.quotient` : the bits of `a / b` rounded once. Sums and products are fused
  multiply-adds with a neutral term, so `+`, `-`, `*` and `/` are those of IEEE 754 with
  rounding to nearest, ties to even.
-/

namespace MixedFem

namespace BinaryFormat

/-- `a / b` with one rounding. Zero by zero and infinity by infinity are NaNs, a nonzero value by
zero is an infinity. The quotient of the significands is taken to at least 57 bits and a
remainder marks a value strictly above it, which rounds like the exact quotient. -/
def quotient (f : BinaryFormat) (a b : Nat) : Nat :=
  match f.decode a, f.decode b with
  | .nan, _ | _, .nan | .infinite _, .infinite _ => f.nanBits
  | .infinite sa, .finite sb _ _ => f.infinityBits (sa != sb)
  | .finite sa _ _, .infinite sb => f.roundBits (sa != sb) 0 0
  | .finite sa ma ea, .finite sb mb eb =>
      if mb = 0 then (if ma = 0 then f.nanBits else f.infinityBits (sa != sb))
      else
        let shift := 60 + Nat.log2 mb - Nat.log2 ma
        let num := ma * Nat.pow 2 shift
        let sticky := if num % mb = 0 then 0 else 1
        f.roundBits (sa != sb) (2 * (num / mb) + sticky) (ea - eb - shift - 1)

end BinaryFormat

/-- A double by its bits. -/
structure Binary64 where
  bits : UInt64
  deriving DecidableEq, Inhabited

namespace Binary64

/-- The double with bits `n`. -/
def ofBits (n : Nat) : Binary64 := ⟨n.toUInt64⟩

/-- The decoded value. -/
def decode (x : Binary64) : Binary := BinaryFormat.binary64.decode x.bits.toNat

/-- Decimal literals, rounded to the nearest double. -/
instance : OfScientific Binary64 where
  ofScientific m s e :=
    ofBits (Decimal.toBinaryBits .binary64 false m (if s then -(e : Int) else e))

/-- The double nearest to a natural number. -/
def ofNat (n : Nat) : Binary64 := ofBits (BinaryFormat.binary64.roundBits false n 0)

/-- The same double as a `Float`. -/
def toFloat (x : Binary64) : Float := Float.ofBits x.bits

/-- The bits of a `Float`. -/
def ofFloat (x : Float) : Binary64 := ⟨x.toBits⟩

instance : Neg Binary64 := ⟨fun x => ⟨x.bits ^^^ 0x8000000000000000⟩⟩

/-- `a * b + c` rounded once. -/
def mulAdd (a b c : Binary64) : Binary64 :=
  ofBits (BinaryFormat.binary64.fusedMulAdd a.bits.toNat b.bits.toNat c.bits.toNat)

-- `a + b` is `a * 1 + b`, and `a * b` is `a * b + (-0)`, which keeps the sign of a zero product.
instance : Add Binary64 := ⟨fun a b => mulAdd a 1.0 b⟩

instance : Sub Binary64 := ⟨fun a b => a + -b⟩

instance : Mul Binary64 := ⟨fun a b => mulAdd a b (-0.0)⟩

instance : Div Binary64 :=
  ⟨fun a b => ofBits (BinaryFormat.binary64.quotient a.bits.toNat b.bits.toNat)⟩

end Binary64

end MixedFem
