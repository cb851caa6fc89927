import MixedFem.Float.Compensated
import MixedFem.Float.Binary64

/-!
# Scalars of the linear algebra

* `Scalar α` : a field of floating-point numbers with its test for zero and finiteness, and the
  way large products are formed for it (`tile`, `mulAdd`);
* `RealScalar ρ` : an ordered scalar, the type of coordinates, magnitudes and tolerances, with
  its absolute value, square root, and the values of double constants and of natural numbers;
* `Magnitude α ρ` : the pivoting size `norm1` (`|re| + |im|`) and the modulus of a scalar; an
  ordered scalar measures itself by its absolute value;
* instances for `Float` and `Float32`.

The numerical code of the library is written once over these classes. It runs with `Float`,
and the same definitions can be read over an exact ordered field.
-/

namespace MixedFem

/-- A scalar of the linear algebra. -/
class Scalar (α : Type) extends Add α, Sub α, Mul α, Div α, Neg α where
  zero : α
  one : α
  isZero : α → Bool
  isFinite : α → Bool
  /-- The register tile `(rows, columns)` in which large products are formed, with fused
  accumulation, or `none` when every product is formed column by column. -/
  tile : Option (Nat × Nat) := none
  /-- `a * b + c` rounded once. -/
  mulAdd : α → α → α → α := fun a b c => a * b + c

/-- A scalar's default value is zero. -/
instance (priority := low) Scalar.inhabited {α : Type} [Scalar α] : Inhabited α := ⟨Scalar.zero⟩

/-- An ordered scalar. -/
class RealScalar (ρ : Type) extends Scalar ρ, LT ρ, LE ρ where
  decLt : DecidableRel (fun a b : ρ => a < b)
  decLe : DecidableRel (fun a b : ρ => a ≤ b)
  /-- The absolute value. -/
  abs : ρ → ρ
  /-- The square root. -/
  sqrt : ρ → ρ
  /-- The value nearest to a double. -/
  ofFloat : Binary64 → ρ
  /-- The value nearest to a natural number. -/
  ofNat : Nat → ρ

/-- Comparisons of an ordered scalar are decided by its own test. -/
instance RealScalar.decidableLt {ρ : Type} [RealScalar ρ] : DecidableRel (fun a b : ρ => a < b) :=
  RealScalar.decLt

/-- Comparisons of an ordered scalar are decided by its own test. -/
instance RealScalar.decidableLe {ρ : Type} [RealScalar ρ] : DecidableRel (fun a b : ρ => a ≤ b) :=
  RealScalar.decLe

/-- Sizes of a scalar. -/
class Magnitude (α : Type) (ρ : outParam Type) where
  /-- `|re| + |im|`, by which pivots are chosen. -/
  norm1 : α → ρ
  /-- The modulus. -/
  modulus : α → ρ

/-- An ordered scalar measures itself by its absolute value. -/
instance RealScalar.magnitude {ρ : Type} [RealScalar ρ] : Magnitude ρ ρ where
  norm1 := RealScalar.abs
  modulus := RealScalar.abs

instance : Scalar Float where
  zero := 0.0
  one := 1.0
  isZero x := x == 0.0
  isFinite x := x.isFinite
  tile := some (8, 4)
  mulAdd := fusedMulAdd

instance : Scalar Float32 where
  zero := 0.0
  one := 1.0
  isZero x := x == 0.0
  isFinite x := x.isFinite
  tile := some (8, 8)
  mulAdd := fusedMulAdd32

instance : RealScalar Float where
  decLt := Float.decLt
  decLe := Float.decLe
  abs := Float.abs
  sqrt := Float.sqrt
  ofFloat x := x.toFloat
  ofNat := Float.ofNat

instance : RealScalar Float32 where
  decLt := Float32.decLt
  decLe := Float32.decLe
  abs := Float32.abs
  sqrt := Float32.sqrt
  ofFloat x := x.toFloat.toFloat32
  ofNat := Float32.ofNat

end MixedFem
