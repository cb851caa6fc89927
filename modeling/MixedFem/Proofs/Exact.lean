import Mathlib.Algebra.Order.Field.Basic
import Mathlib.Data.Rat.Cast.Order
import MixedFem.Scalar

/-!
# Exact arithmetic

The numerical code of the library is written over `Scalar` and `RealScalar`. Read over a field
whose operations are exact, it is the algorithm of the code with no rounding at all; this is the
reading in which the statements about the element tensors, the assembly and the solver hold.

* `Binary.toRat` : the exact value of a decoded binary value, `0` for infinities and NaNs;
  `floatValue x` : the exact value of a double, computed from its bits (`floatValue_half`);
* `Exact K` : a field `K` as a scalar of the library: every operation is the field's own, every
  value is finite, and zero is tested exactly;
* over an ordered field, `Exact K` is an ordered scalar: `abs` is `|x|`, `sqrt` the square root
  where one exists, `ofFloat` the exact value of the double and `ofNat` the cast;
* `Exact.val_*` : the operations of the library, read back in the field;
* `LawfulMagnitude K R` : sizes of the scalars of `K` in an ordered field `R` that vanish only at
  zero, as the absolute value of an ordered field and the modulus of a complex number do.
-/

namespace MixedFem

/-- The exact value of a decoded binary value; an infinity or a NaN has none and reads as `0`. -/
def Binary.toRat : Binary → ℚ
  | .finite negative m e => (if negative then -1 else 1) * m * (2 : ℚ) ^ e
  | _ => 0

/-- The exact value of a double. -/
def floatValue (x : Binary64) : ℚ := x.decode.toRat

-- The constants of the material law and the shape functions, computed from their bits.
@[simp] theorem floatValue_zero : floatValue 0.0 = 0 := by decide +kernel

@[simp] theorem floatValue_half : floatValue 0.5 = 1 / 2 := by decide +kernel

@[simp] theorem floatValue_one : floatValue 1.0 = 1 := by decide +kernel

theorem floatValue_two : floatValue 2.0 = 2 := by decide +kernel

theorem floatValue_four : floatValue 4.0 = 4 := by decide +kernel

/-- A field whose operations are used as the scalar operations of the library. -/
def Exact (K : Type) : Type := K

namespace Exact

variable {K : Type}

/-- A value of the field as a scalar. -/
def mk (x : K) : Exact K := x

/-- The value in the field of a scalar. -/
def val (x : Exact K) : K := x

@[simp] theorem val_mk (x : K) : (mk x).val = x := rfl

@[simp] theorem mk_val (x : Exact K) : mk x.val = x := rfl

@[ext] theorem ext {x y : Exact K} (h : x.val = y.val) : x = y := h

instance [DecidableEq K] : DecidableEq (Exact K) := fun x y =>
  decidable_of_iff (x.val = y.val) ⟨ext, fun h => h ▸ rfl⟩

section Field

variable [Field K] [DecidableEq K]

/-- The operations of the field, with exact tests for zero; every value is finite. -/
instance : Scalar (Exact K) where
  add x y := mk (x.val + y.val)
  sub x y := mk (x.val - y.val)
  mul x y := mk (x.val * y.val)
  div x y := mk (x.val / y.val)
  neg x := mk (-x.val)
  zero := mk 0
  one := mk 1
  isZero x := decide (x.val = 0)
  isFinite _ := true

@[simp] theorem val_add (x y : Exact K) : (x + y).val = x.val + y.val := rfl

@[simp] theorem val_sub (x y : Exact K) : (x - y).val = x.val - y.val := rfl

@[simp] theorem val_mul (x y : Exact K) : (x * y).val = x.val * y.val := rfl

@[simp] theorem val_div (x y : Exact K) : (x / y).val = x.val / y.val := rfl

@[simp] theorem val_neg (x : Exact K) : (-x).val = -x.val := rfl

@[simp] theorem val_zero : (Scalar.zero : Exact K).val = 0 := rfl

@[simp] theorem val_one : (Scalar.one : Exact K).val = 1 := rfl

@[simp] theorem isZero_eq (x : Exact K) : Scalar.isZero x = decide (x.val = 0) := rfl

@[simp] theorem isFinite_eq (x : Exact K) : Scalar.isFinite x = true := rfl

@[simp] theorem tile_eq : Scalar.tile (α := Exact K) = none := rfl

@[simp] theorem mulAdd_eq (a b c : Exact K) : Scalar.mulAdd a b c = a * b + c := rfl

/-- A running sum read in the field, when each step adds a term of its own. -/
theorem val_foldl_step {ι : Type} (step : Exact K → ι → Exact K) (t : ι → K) :
    ∀ l : List ι, (∀ s, ∀ i ∈ l, (step s i).val = s.val + t i) →
      ∀ s, (l.foldl step s).val = s.val + (l.map t).sum
  | [], _, s => by simp
  | i :: l, h, s => by
    rw [List.foldl_cons, val_foldl_step step t l (fun s j hj => h s j (List.mem_cons_of_mem _ hj)),
      h s i List.mem_cons_self, List.map_cons, List.sum_cons, add_assoc]

end Field

section Ordered

variable [Field K] [LinearOrder K]

/-- The square root of `x` where it has one, `0` elsewhere. -/
noncomputable def sqrt (x : K) : K :=
  open Classical in if h : ∃ y, 0 ≤ y ∧ y * y = x then Classical.choose h else 0

/-- The order, absolute value and constants of an ordered field. -/
noncomputable instance : RealScalar (Exact K) where
  lt x y := x.val < y.val
  le x y := x.val ≤ y.val
  decLt x y := inferInstanceAs (Decidable (x.val < y.val))
  decLe x y := inferInstanceAs (Decidable (x.val ≤ y.val))
  abs x := mk |x.val|
  sqrt x := mk (sqrt x.val)
  ofFloat x := mk (floatValue x : K)
  ofNat n := mk (n : K)

@[simp] theorem lt_iff (x y : Exact K) : x < y ↔ x.val < y.val := Iff.rfl

@[simp] theorem le_iff (x y : Exact K) : x ≤ y ↔ x.val ≤ y.val := Iff.rfl

@[simp] theorem val_abs (x : Exact K) : (RealScalar.abs x).val = |x.val| := rfl

@[simp] theorem val_ofFloat (x : Binary64) :
    (RealScalar.ofFloat x : Exact K).val = (floatValue x : K) := rfl

@[simp] theorem val_ofNat (n : Nat) : (RealScalar.ofNat n : Exact K).val = (n : K) := rfl

@[simp] theorem norm1_eq (x : Exact K) : (Magnitude.norm1 x : Exact K) = RealScalar.abs x := rfl

@[simp] theorem modulus_eq (x : Exact K) : (Magnitude.modulus x : Exact K) = RealScalar.abs x := rfl

end Ordered

end Exact

/-- Sizes of exact scalars, valued in an ordered field, that behave as sizes: never negative, and
zero only at zero. The pivoting size and the modulus of a complex number are such sizes. -/
class LawfulMagnitude (K R : Type) [Field K] [Field R] [LinearOrder R]
    [Magnitude (Exact K) (Exact R)] : Prop where
  norm1_nonneg (x : Exact K) : 0 ≤ (Magnitude.norm1 x : Exact R).val
  norm1_eq_zero (x : Exact K) : (Magnitude.norm1 x : Exact R).val = 0 ↔ x.val = 0
  modulus_nonneg (x : Exact K) : 0 ≤ (Magnitude.modulus x : Exact R).val
  modulus_eq_zero (x : Exact K) : (Magnitude.modulus x : Exact R).val = 0 ↔ x.val = 0

/-- An ordered field measures itself by its absolute value. -/
instance {K : Type} [Field K] [LinearOrder K] [IsStrictOrderedRing K] : LawfulMagnitude K K where
  norm1_nonneg x := abs_nonneg x.val
  norm1_eq_zero _ := abs_eq_zero
  modulus_nonneg x := abs_nonneg x.val
  modulus_eq_zero _ := abs_eq_zero

end MixedFem
