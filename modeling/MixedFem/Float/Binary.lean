/-!
# Binary interchange formats: decoding and nearest-even rounding

* `BinaryFormat` : precision and exponent width of an IEEE 754 binary format; `binary64`,
  `binary32`;
* `Binary` : a decoded bit pattern, finite `(-1)^s * m * 2^e`, an infinity or a NaN;
* `BinaryFormat.decode`, `BinaryFormat.roundBits` : from bits to `Binary`, and from an exact
  dyadic value to the bits of the nearest representable value (ties to an even significand);
* `Binary.addExact`, `Binary.mulExact` : exact sums and products of finite values, with the sign
  that a zero result carries under round-to-nearest.
-/

namespace MixedFem

/-- An IEEE 754 binary format: `precision` significand bits, the hidden bit included, and
`exponentBits` bits of biased exponent. -/
structure BinaryFormat where
  precision : Nat
  exponentBits : Nat

/-- A decoded value: finite `(-1)^negative * significand * 2^exponent`, an infinity or a NaN. -/
inductive Binary where
  | finite (negative : Bool) (significand : Nat) (exponent : Int)
  | infinite (negative : Bool)
  | nan

namespace BinaryFormat

/-- The 64-bit format. -/
def binary64 : BinaryFormat := ⟨53, 11⟩

/-- The 32-bit format. -/
def binary32 : BinaryFormat := ⟨24, 8⟩

/-- Stored significand bits. -/
def fractionBits (f : BinaryFormat) : Nat := f.precision - 1

/-- Exponent bias. -/
def bias (f : BinaryFormat) : Nat := Nat.pow 2 (f.exponentBits - 1) - 1

/-- The all-ones biased exponent of infinities and NaNs. -/
def specialExponent (f : BinaryFormat) : Nat := Nat.pow 2 f.exponentBits - 1

/-- The weight of the last significand bit of subnormal numbers. -/
def minQuantum (f : BinaryFormat) : Int := 1 - (f.bias : Int) - f.fractionBits

/-- The sign bit. -/
def signBit (f : BinaryFormat) : Nat := Nat.pow 2 (f.fractionBits + f.exponentBits)

/-- Bits of an infinity of the given sign. -/
def infinityBits (f : BinaryFormat) (negative : Bool) : Nat :=
  (if negative then f.signBit else 0) + f.specialExponent * Nat.pow 2 f.fractionBits

/-- Bits of the quiet NaN that arithmetic produces. -/
def nanBits (f : BinaryFormat) : Nat :=
  f.specialExponent * Nat.pow 2 f.fractionBits + Nat.pow 2 (f.fractionBits - 1)

/-- Reads a bit pattern. -/
def decode (f : BinaryFormat) (bits : Nat) : Binary :=
  let fraction := bits % Nat.pow 2 f.fractionBits
  let biased := bits / Nat.pow 2 f.fractionBits % Nat.pow 2 f.exponentBits
  let negative := decide (f.signBit ≤ bits % (2 * f.signBit))
  if biased = f.specialExponent then
    if fraction = 0 then .infinite negative else .nan
  else if biased = 0 then .finite negative fraction f.minQuantum
  else .finite negative (fraction + Nat.pow 2 f.fractionBits) (f.minQuantum + biased - 1)

/-- `m / 2^s` rounded to the nearest integer, a tie to the even one. -/
def roundShift (m s : Nat) : Nat :=
  if s = 0 then m else
  let q := m / Nat.pow 2 s
  let r := m % Nat.pow 2 s
  let half := Nat.pow 2 (s - 1)
  if half < r ∨ (r = half ∧ q % 2 = 1) then q + 1 else q

/-- Bits of the value of the format nearest to `(-1)^negative * m * 2^e`, a tie going to the
even significand; past the largest finite value the result is an infinity. A zero `m` gives the
zero of the given sign. -/
def roundBits (f : BinaryFormat) (negative : Bool) (m : Nat) (e : Int) : Nat :=
  let sign := if negative then f.signBit else 0
  if m = 0 then sign else
  let top : Int := (Nat.log2 m : Int) + e
  let q : Int := max (top - f.fractionBits) f.minQuantum
  let r := if q ≤ e then m * Nat.pow 2 (e - q).toNat else roundShift m (q - e).toNat
  let (r, q) := if r = Nat.pow 2 f.precision then (r / 2, q + 1) else (r, q)
  if r < Nat.pow 2 f.fractionBits then sign + r
  else
    let biased := (q - f.minQuantum + 1).toNat
    if f.specialExponent ≤ biased then f.infinityBits negative
    else sign + biased * Nat.pow 2 f.fractionBits + (r - Nat.pow 2 f.fractionBits)

end BinaryFormat

namespace Binary

/-- The exact product of two finite values, as sign, significand and exponent. -/
def mulExact (s₁ : Bool) (m₁ : Nat) (e₁ : Int) (s₂ : Bool) (m₂ : Nat) (e₂ : Int) :
    Bool × Nat × Int :=
  (s₁ != s₂, m₁ * m₂, e₁ + e₂)

/-- The exact sum of two finite values. A sum that is exactly zero is `-0` only when both terms
are zeros of negative sign, as under rounding to nearest. -/
def addExact (s₁ : Bool) (m₁ : Nat) (e₁ : Int) (s₂ : Bool) (m₂ : Nat) (e₂ : Int) :
    Bool × Nat × Int :=
  let e := min e₁ e₂
  let v₁ : Int := (if s₁ then -1 else 1) * ((m₁ * Nat.pow 2 (e₁ - e).toNat : Nat) : Int)
  let v₂ : Int := (if s₂ then -1 else 1) * ((m₂ * Nat.pow 2 (e₂ - e).toNat : Nat) : Int)
  let v := v₁ + v₂
  if v = 0 then (m₁ == 0 && m₂ == 0 && s₁ && s₂, 0, e)
  else (decide (v < 0), v.natAbs, e)

end Binary

end MixedFem
