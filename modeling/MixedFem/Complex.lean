import MixedFem.Scalar
import MixedFem.Float.Hypot

/-!
# Complex numbers over `Float`

* `Complex` : `re + im i`;
* arithmetic by the textbook formulas, each part rounded separately: the product
  `(ac - bd) + (ad + bc) i`, and the quotient by `c² + d²` without scaling;
* `Scalar Complex` and `Magnitude Complex Float`: `norm1` is `|re| + |im|`, the modulus is
  `hypot re im`.
-/

namespace MixedFem

/-- A complex number. -/
structure Complex where
  re : Float
  im : Float
  deriving Inhabited

namespace Complex

instance : Add Complex := ⟨fun a b => ⟨a.re + b.re, a.im + b.im⟩⟩
instance : Sub Complex := ⟨fun a b => ⟨a.re - b.re, a.im - b.im⟩⟩
instance : Neg Complex := ⟨fun a => ⟨-a.re, -a.im⟩⟩
instance : Mul Complex := ⟨fun a b => ⟨a.re * b.re - a.im * b.im, a.re * b.im + a.im * b.re⟩⟩
instance : Div Complex :=
  ⟨fun a b =>
    let n := b.re * b.re + b.im * b.im
    ⟨(a.re * b.re + a.im * b.im) / n, (a.im * b.re - a.re * b.im) / n⟩⟩

/-- A real number as a complex one. -/
def ofReal (x : Float) : Complex := ⟨x, 0.0⟩

instance : Scalar Complex where
  zero := ⟨0.0, 0.0⟩
  one := ⟨1.0, 0.0⟩
  isZero z := z.re == 0.0 && z.im == 0.0
  isFinite z := z.re.isFinite && z.im.isFinite

instance : Magnitude Complex Float where
  norm1 z := z.re.abs + z.im.abs
  modulus z := hypot z.re z.im

end Complex

end MixedFem
