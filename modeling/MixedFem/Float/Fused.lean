import MixedFem.Float.Binary

/-!
# Fused multiply-add, rounded once

* `BinaryFormat.fusedMulAdd f a b c` : the bits of `a * b + c` computed exactly and rounded once;
* `fusedMulAddExact`, `fusedMulAdd32Exact` : the same on `Float` and `Float32`.
-/

namespace MixedFem

namespace BinaryFormat

/-- The sum of an infinite product of sign `s` and the addend `c`. -/
def addToInfinity (f : BinaryFormat) (s : Bool) : Binary → Nat
  | .infinite sc => if sc != s then f.nanBits else f.infinityBits s
  | _ => f.infinityBits s

/-- `a * b + c` with one rounding. An infinite factor times a zero is a NaN, and so is the sum
of infinities of opposite signs. -/
def fusedMulAdd (f : BinaryFormat) (a b c : Nat) : Nat :=
  match f.decode a, f.decode b, f.decode c with
  | .nan, _, _ | _, .nan, _ | _, _, .nan => f.nanBits
  | .infinite sa, .finite sb mb _, z | .finite sb mb _, .infinite sa, z =>
      if mb = 0 then f.nanBits else f.addToInfinity (sa != sb) z
  | .infinite sa, .infinite sb, z => f.addToInfinity (sa != sb) z
  | .finite _ _ _, .finite _ _ _, .infinite sc => f.infinityBits sc
  | .finite sa ma ea, .finite sb mb eb, .finite sc mc ec =>
      let (sp, mp, ep) := Binary.mulExact sa ma ea sb mb eb
      let (s, m, e) := Binary.addExact sp mp ep sc mc ec
      f.roundBits s m e

end BinaryFormat

/-- `a * b + c` on `Float`, rounded once. -/
def fusedMulAddExact (a b c : Float) : Float :=
  Float.ofBits (BinaryFormat.binary64.fusedMulAdd a.toBits.toNat b.toBits.toNat c.toBits.toNat).toUInt64

/-- `a * b + c` on `Float32`, rounded once. -/
def fusedMulAdd32Exact (a b c : Float32) : Float32 :=
  Float32.ofBits (BinaryFormat.binary32.fusedMulAdd a.toBits.toNat b.toBits.toNat c.toBits.toNat).toUInt32

end MixedFem
