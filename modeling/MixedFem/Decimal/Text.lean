import MixedFem.Decimal.Shortest

/-!
# Writing binary values as decimal text

* `NumberStyle` : the choices of a number format: where positional notation ends, whether an
  integral value keeps `.0`, the sign of a positive exponent, the texts of NaN and infinities;
* `NumberStyle.data` : numbers in data files (`1.0`, `0.1`, `1e-7`, `1e+300`);
* `NumberStyle.message` : numbers in messages (`1`, `0.5`, `0.0000001`, `NaN`);
* `NumberStyle.write`, `NumberStyle.writeFloat` : the text of a decimal and of a `Float` or
  `Float32`, from the shortest digits that read back.
-/

namespace MixedFem

/-- How a number is written. -/
structure NumberStyle where
  /-- Decimal exponents (of the leading digit) from `minPositional` to `maxPositional` are
  written positionally, others as `d.ddde±x`. -/
  minPositional : Int
  maxPositional : Int
  /-- An integral value written positionally keeps a `.0`. -/
  pointZero : Bool
  /-- A positive exponent carries a `+`. -/
  plusExponent : Bool
  nan : String
  infinity : String
  negativeInfinity : String
  /-- How an exact tie between the two nearest shortest decimals is broken. -/
  tie : Tie

namespace NumberStyle

/-- Numbers in data: positional from `1e-5` below `1e16`, `.0` kept, `e+` for large values, a
tie to even digits; a value that is not finite is written as a string by the writer of the
data. -/
def data : NumberStyle :=
  { minPositional := -5, maxPositional := 15, pointZero := true, plusExponent := true,
    nan := "NaN", infinity := "inf", negativeInfinity := "-inf", tie := .toEven }

/-- Numbers in messages: always positional, integral values without a point, a tie to the greater
digits. -/
def message : NumberStyle :=
  { minPositional := -100000, maxPositional := 100000, pointZero := false, plusExponent := false,
    nan := "NaN", infinity := "inf", negativeInfinity := "-inf", tie := .up }

/-- `n` zeros. -/
def zeros (n : Nat) : String := String.ofList (List.replicate n '0')

/-- The text of a positive decimal. -/
def write (s : NumberStyle) (d : Decimal) : String :=
  let ds := Nat.toDigits 10 d.digits
  let n := ds.length
  let sci : Int := d.exponent + n - 1
  if s.minPositional ≤ sci ∧ sci ≤ s.maxPositional then
    if 0 ≤ sci then
      let whole := sci.toNat + 1
      if n ≤ whole then
        String.ofList ds ++ zeros (whole - n) ++ (if s.pointZero then ".0" else "")
      else String.ofList (ds.take whole) ++ "." ++ String.ofList (ds.drop whole)
    else "0." ++ zeros ((-sci).toNat - 1) ++ String.ofList ds
  else
    let mant := match ds with
      | [c] => String.singleton c
      | c :: rest => String.singleton c ++ "." ++ String.ofList rest
      | [] => "0"
    let ex := if sci < 0 then "-" ++ toString sci.natAbs
      else (if s.plusExponent then "+" else "") ++ toString sci.natAbs
    mant ++ "e" ++ ex

/-- The text of a decoded value of a binary format. -/
def writeBinary (s : NumberStyle) (f : BinaryFormat) : Binary → String
  | .nan => s.nan
  | .infinite neg => if neg then s.negativeInfinity else s.infinity
  | .finite neg m e =>
      let sign := if neg then "-" else ""
      if m = 0 then sign ++ (if s.pointZero then "0.0" else "0")
      else sign ++ s.write (Decimal.ofBinary s.tie f m e)

/-- The text of a `Float`. -/
def writeFloat (s : NumberStyle) (x : Float) : String :=
  s.writeBinary .binary64 (BinaryFormat.binary64.decode x.toBits.toNat)

/-- The text of a `Float32`, with the digits of its own format. -/
def writeFloat32 (s : NumberStyle) (x : Float32) : String :=
  s.writeBinary .binary32 (BinaryFormat.binary32.decode x.toBits.toNat)

end NumberStyle

end MixedFem
