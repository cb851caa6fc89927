import Mathlib.Algebra.BigOperators.Ring.Finset
import Mathlib.Data.Rat.BigOperators
import Mathlib.Tactic.LinearCombination
import MixedFem.Proofs.Condensation
import MixedFem.Proofs.Kernel.Tensors
import MixedFem.Proofs.Matrix.Scale

/-!
# The strength-2 rule and the stress mass matrix

The element tensors are integrated with the strength-2 rule, three points of weight
`a = fl(1/6)` at `(a, a)`, `(b, a)`, `(a, b)` with `b = fl(1 - 2a)`. Read in a field, the rule is
its exact rational values, and the stress mass matrix of a cell is `|det J|` times a fixed
rational matrix, whose factorization is computed here once.

* `rulePoint q`, `elementRule_eq` : the rule as three weighted points; `rulePoint_val` : their
  exact rational values `refPoint q`; `sum_elementRule` : a sum over the rule;
* `rulePoint_unisolvent` : the linear shape functions are unisolvent at the three points;
* `refMass` : the stress mass matrix of a cell with `|det J| = 1`; `stressMass_eq_refMass` : on
  every cell it is `|det J|` times `refMass`;
* `refMass_pivots` : the pivots of `refMass` are nonzero and pass the default ratio test, by
  computation; `refMass_scaled_pivots` : so do those of every positive multiple of it.
-/

namespace MixedFem

/-- The coordinate `fl(1/6)` of the points of the strength-2 rule, also its weight. -/
def ruleA : Binary64 := 1.0 / 6.0

/-- The coordinate `fl(1 - 2 fl(1/6))` of the points of the strength-2 rule. -/
def ruleB : Binary64 := 1.0 - 2.0 * ruleA

/-- The weight and point `q` of the strength-2 rule in exact rationals. -/
def refPoint (q : Nat) : ℚ × ℚ × ℚ :=
  let a := floatValue ruleA
  let b := floatValue ruleB
  if q = 0 then (a, a, a) else if q = 1 then (a, b, a) else (a, a, b)

/-- The linear shape function `a` at `(x, y)`. -/
def shapeP1 {F : Type} [Field F] (a : Nat) (x y : F) : F :=
  if a = 0 then 1 - x - y else if a = 1 then x else y

/-- `E_c : E_c` for the basis tensors of the stresses. -/
def basisNorm {F : Type} [Field F] (c : Nat) : F := if c = 2 then 2 else 1

/-- The stress mass matrix on a cell with `|det J| = 1`. -/
def refMass (i j : Nat) : ℚ :=
  if i % 3 = j % 3 then
    ∑ q ∈ Finset.range 3, (refPoint q).1 * shapeP1 (i / 3) (refPoint q).2.1 (refPoint q).2.2 *
      shapeP1 (j / 3) (refPoint q).2.1 (refPoint q).2.2 * basisNorm (i % 3)
  else 0

/-- `refMass` as a matrix of exact rationals. -/
noncomputable def refMassMatrix : Matrix (Exact ℚ) :=
  Matrix.ofFn 9 9 fun i j => Exact.mk (refMass i j)

theorem refMassMatrix_get {r s : Nat} (hr : r < 9) (hs : s < 9) :
    (refMassMatrix.get r s).val = refMass r s := by
  unfold refMassMatrix
  rw [Matrix.get_ofFn _ hr hs, Exact.val_mk]

/-- The pivots of the reference mass matrix are nonzero, and each is at least `9 ε` times every
other: decided by computing the factorization. -/
theorem refMass_pivots : ∀ i < 9, ((refMassMatrix.lu (ρ := Exact ℚ)).factors.get i i).val ≠ 0 ∧
    ∀ j < 9, floatValue (Binary64.ofNat 9 * floatEpsilon) *
      |((refMassMatrix.lu (ρ := Exact ℚ)).factors.get j j).val| ≤
        |((refMassMatrix.lu (ρ := Exact ℚ)).factors.get i i).val| := by
  decide +kernel

variable {K : Type} [Field K] [LinearOrder K]

open RealScalar (ofFloat) in
/-- The weight and point `q` of the element rule. -/
noncomputable def rulePoint (q : Nat) : Exact K × Vec2 (Exact K) :=
  if q = 0 then (ofFloat ruleA, ⟨ofFloat ruleA, ofFloat ruleA⟩)
  else if q = 1 then (ofFloat ruleA, ⟨ofFloat ruleB, ofFloat ruleA⟩)
  else (ofFloat ruleA, ⟨ofFloat ruleA, ofFloat ruleB⟩)

/-- The element rule read in the field is the rule in exact rationals. -/
theorem rulePoint_val (q : Nat) : (rulePoint (K := K) q).1.val = (refPoint q).1 ∧
    (rulePoint (K := K) q).2.x.val = (refPoint q).2.1 ∧
    (rulePoint (K := K) q).2.y.val = (refPoint q).2.2 := by
  unfold rulePoint refPoint
  split_ifs <;> simp

theorem elementRule_eq : elementRule (ρ := Exact K) = [rulePoint 0, rulePoint 1, rulePoint 2] := by
  have hrule : triangleRule 2 = .ok (orbit ruleA ruleA) := rfl
  simp only [elementRule, hrule, orbit, Array.toList_zip, List.zip_cons_cons, List.zip_nil_left,
    List.map_cons, List.map_nil]
  rfl

theorem sum_elementRule {M : Type} [AddCommMonoid M] (f : Exact K × Vec2 (Exact K) → M) :
    (elementRule.map f).sum = ∑ q ∈ Finset.range 3, f (rulePoint q) := by
  rw [elementRule_eq]
  simp [Finset.sum_range_succ, add_assoc]

theorem floatValue_ruleA_ne_ruleB : floatValue ruleA ≠ floatValue ruleB := by decide +kernel

theorem floatValue_ruleA_ne_zero : floatValue ruleA ≠ 0 := by decide +kernel

/-- Every point of the rule has the weight `fl(1/6)`. -/
theorem refPoint_weight (q : Nat) : (refPoint q).1 = floatValue ruleA := by
  unfold refPoint
  split_ifs <;> rfl

/-- The linear shape functions are unisolvent at the three points of the rule: a combination of
their values that vanishes for every function has zero coefficients. -/
theorem rulePoint_unisolvent [IsStrictOrderedRing K] (z : Nat → K)
    (h : ∀ a < 3, ∑ q ∈ Finset.range 3,
      shapeP1 a (rulePoint (K := K) q).2.x.val (rulePoint (K := K) q).2.y.val * z q = 0) :
    ∀ q < 3, z q = 0 := by
  have hab : ((floatValue ruleB : ℚ) : K) - floatValue ruleA ≠ 0 :=
    sub_ne_zero.2 fun he => floatValue_ruleA_ne_ruleB (Rat.cast_injective he).symm
  have e0 := h 0 (by omega)
  have e1 := h 1 (by omega)
  have e2 := h 2 (by omega)
  simp only [Finset.sum_range_succ, Finset.sum_range_zero, zero_add, shapeP1, rulePoint_val,
    refPoint] at e0 e1 e2
  norm_num at e0 e1 e2
  -- the three functions sum to one, so the coefficients sum to zero
  have hsum : z 0 + z 1 + z 2 = 0 := by linear_combination e0 + e1 + e2
  have h1 : ((floatValue ruleB : K) - floatValue ruleA) * z 1 = 0 := by
    linear_combination e1 - (floatValue ruleA : K) * hsum
  have h2 : ((floatValue ruleB : K) - floatValue ruleA) * z 2 = 0 := by
    linear_combination e2 - (floatValue ruleA : K) * hsum
  have hz1 := (mul_eq_zero.1 h1).resolve_left hab
  have hz2 := (mul_eq_zero.1 h2).resolve_left hab
  intro q hq
  obtain rfl | rfl | rfl : q = 0 ∨ q = 1 ∨ q = 2 := by omega
  · linear_combination hsum - hz1 - hz2
  · exact hz1
  · exact hz2

theorem cast_shapeP1 [IsStrictOrderedRing K] (a : Nat) (x y : ℚ) :
    ((shapeP1 a x y : ℚ) : K) = shapeP1 a (x : K) (y : K) := by
  unfold shapeP1
  split_ifs <;> push_cast <;> rfl

theorem cast_basisNorm [IsStrictOrderedRing K] (c : Nat) :
    ((basisNorm c : ℚ) : K) = basisNorm c := by
  unfold basisNorm
  split_ifs <;> push_cast <;> rfl

/-- The linear shape functions, read in the field. -/
theorem p1Values_val (xi : Vec2 (Exact K)) {a : Nat} (ha : a < 3) :
    ((p1Values xi)[a]!).val = shapeP1 a xi.x.val xi.y.val := by
  obtain rfl | rfl | rfl : a = 0 ∨ a = 1 ∨ a = 2 := by omega
  all_goals simp [p1Values, shapeP1]

/-- `E_c : E_c`, read in the field. -/
theorem symBasis_contract_val {c : Nat} (hc : c < 3) :
    ((symBasis (ρ := Exact K) c).contract (symBasis c)).val = basisNorm c := by
  obtain rfl | rfl | rfl : c = 0 ∨ c = 1 ∨ c = 2 := by omega
  all_goals simp [symBasis, Mat2.contract, basisNorm, one_add_one_eq_two]

variable [IsStrictOrderedRing K] {cell : CellData (Exact K)} {D : Exact K} {it : Mat2 (Exact K)}

/-- On any cell the stress mass matrix is `|det J|` times the reference one. -/
theorem stressMass_eq_refMass (h : cellGeometry cell = .ok (D, it)) :
    ∃ M, (stressMass (ρ := Exact K)).compute cell = .ok M ∧
      Matrix.HasEntries 9 9 (fun i j => D.val * (refMass i j : K)) M := by
  obtain ⟨M, hM, hr, hc, hw, hget⟩ := stressMass_entries h
  refine ⟨M, hM, hr, hc, hw, fun i hi j hj => ?_⟩
  rw [hget i hi j hj]
  beta_reduce
  unfold refMass
  split_ifs with hij
  · rw [sum_elementRule, Rat.cast_sum, Finset.mul_sum]
    refine Finset.sum_congr rfl fun q _ => ?_
    obtain ⟨h1, h2, h3⟩ := rulePoint_val (K := K) q
    rw [Exact.val_mul, Exact.val_mul, Exact.val_mul, Exact.val_mul, p1Values_val _ (by omega),
      p1Values_val _ (by omega), symBasis_contract_val (by omega), h1, h2, h3]
    push_cast [cast_shapeP1, cast_basisNorm]
    ring
  · rw [Rat.cast_zero, mul_zero]

/-- A matrix `D` times the reference mass matrix, `D > 0`, has nonzero pivots that pass the
default ratio test. -/
theorem refMass_scaled_pivots (hD : 0 < D.val) {M : Matrix (Exact K)}
    (hM : Matrix.HasEntries 9 9 (fun i j => D.val * (refMass i j : K)) M) :
    (∀ t < 9, ((M.lu (ρ := Exact K)).factors.get t t).val ≠ 0) ∧
      CondensationSettings.checkPivots (M.lu (ρ := Exact K)).pivots
        (({} : CondensationSettings (Exact K)).effectiveTolerance 9) = .ok () := by
  obtain ⟨hr, hc, hw, hget⟩ := hM
  have hs := lu_scaled hD hw (show refMassMatrix.WF from Matrix.WF.ofFn 9 9 _) hr hc rfl rfl
    fun r hr' s hs' => by rw [hget r hr' s hs', refMassMatrix_get hr' hs']
  -- the diagonal of the factors is `D` times the reference pivots
  have hdiag : ∀ t < 9, ((M.lu (ρ := Exact K)).factors.get t t).val =
      D.val * (((refMassMatrix.lu (ρ := Exact ℚ)).factors.get t t).val : K) := fun t ht => by
    rw [hs.entry t ht t ht, if_neg (by omega)]
  have hnz : ∀ t < 9, ((M.lu (ρ := Exact K)).factors.get t t).val ≠ 0 := fun t ht => by
    rw [hdiag t ht]
    exact mul_ne_zero hD.ne' (Rat.cast_ne_zero.2 (refMass_pivots t ht).1)
  have hsize : (M.lu (ρ := Exact K)).pivots.size = 9 := by
    rw [Lu.pivots, Array.size_ofFn, hs.rows, hs.cols, min_self]
  refine ⟨hnz, CondensationSettings.checkPivots_ok _ _ (fun t ht => ?_) (fun t ht u hu => ?_)⟩
  · simp only [Lu.pivots, Array.getElem_ofFn]
    exact hnz t (hsize ▸ ht)
  · have ht' : t < 9 := hsize ▸ ht
    have hu' : u < 9 := hsize ▸ hu
    have hq := Rat.cast_le (K := K) |>.2 ((refMass_pivots t ht').2 u hu')
    push_cast at hq
    simp only [Lu.pivots, Array.getElem_ofFn, CondensationSettings.effectiveTolerance,
      Option.getD_none, Exact.val_ofFloat, hdiag t ht', hdiag u hu', abs_mul, abs_of_pos hD]
    calc (floatValue (Binary64.ofNat 9 * floatEpsilon) : K) *
          (D.val * |(((refMassMatrix.lu (ρ := Exact ℚ)).factors.get u u).val : K)|)
        = D.val * ((floatValue (Binary64.ofNat 9 * floatEpsilon) : K) *
          |(((refMassMatrix.lu (ρ := Exact ℚ)).factors.get u u).val : K)|) := by ring
      _ ≤ D.val * |(((refMassMatrix.lu (ρ := Exact ℚ)).factors.get t t).val : K)| :=
        mul_le_mul_of_nonneg_left hq hD.le

end MixedFem
