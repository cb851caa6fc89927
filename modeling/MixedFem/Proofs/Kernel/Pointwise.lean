import Mathlib.Tactic.FieldSimp
import MixedFem.Proofs.Kernel.Reference

/-!
# The element tensors of mixed elasticity at the points of the rule

Read at the three points of the strength-2 rule, each element tensor is a sum of three terms,
and each term is a product of field values: the weight, `|det J|`, the shape functions and the
material law. The identity that makes the mixed and the displacement forms agree holds term by
term, at one point.

* `PlaneStress.make_eq_ok` : a material with `E > 0` and `-1 < ν < 1` is accepted;
* `sum_symBasis_stress` : at one point, the stress of `e_k ⊗ h` measured against the stress basis,
  weighed by the rows of the basis against `g` and divided by the norms `E_d : E_d`, is the entry
  `(l, k)` of the elasticity contraction `C(g, h)`;
* `rulePsi`, `ruleGrad` : shape function values and physical gradients at the points of the
  rule; `stressMass_pointwise`, `strainStress_pointwise`, `stressDivergence_pointwise`,
  `displacementStiffness_pointwise` : the four tensors as sums over the three points;
* `condensedElasticity_tabulate` : the condensed kernel is built, and on a cell it tabulates the
  three mixed tensors and condenses them.
-/

namespace MixedFem

open Finset

variable {K : Type} [Field K] [LinearOrder K]

/-- A material with `E > 0` and `-1 < ν < 1` is accepted as it is. -/
theorem PlaneStress.make_eq_ok {E ν : Exact K} (hE : 0 < E.val) (hν : -1 < ν.val)
    (hν' : ν.val < 1) : PlaneStress.make E ν = .ok ⟨E, ν⟩ := by
  have h0 : (RealScalar.ofFloat 0.0 : Exact K) < E := by
    rw [Exact.lt_iff, Exact.val_ofFloat, floatValue_zero, Rat.cast_zero]
    exact hE
  have h1 : -(RealScalar.ofFloat 1.0 : Exact K) < ν := by
    rw [Exact.lt_iff, Exact.val_neg, Exact.val_ofFloat, floatValue_one, Rat.cast_one]
    exact hν
  have h2 : ν < (RealScalar.ofFloat 1.0 : Exact K) := by
    rw [Exact.lt_iff, Exact.val_ofFloat, floatValue_one, Rat.cast_one]
    exact hν'
  simp only [PlaneStress.make, Violation.require, gt_iff_lt, decide_eq_true h0, decide_eq_true h1,
    decide_eq_true h2, Bool.and_self, if_true]
  rfl

theorem condensedElasticity_tabulate (s : CondensationSettings (Exact K)) (m : PlaneStress (Exact K))
    (cell : CellData (Exact K)) : ∃ k, condensedElasticity s m = .ok k ∧
      k.tabulate cell = (do
        let m00 ← (stressMass (ρ := Exact K)).compute cell
        let m01 ← (strainStress m).compute cell
        let m10 ← (stressDivergence (ρ := Exact K)).compute cell
        match s.condenseInto (12, 12) m00 m01 m10 with
        | .ok r => pure r
        | .error e => throw (.condensation (e.withElement cell.index))) :=
  ⟨_, rfl, rfl⟩

/-- The value of the linear shape function `a` at the point `q` of the rule. -/
noncomputable def rulePsi (a q : Nat) : K :=
  shapeP1 a (rulePoint (K := K) q).2.x.val (rulePoint (K := K) q).2.y.val

/-- The physical gradient of the quadratic shape function `b` at the point `q` of the rule. -/
noncomputable def ruleGrad (it : Mat2 (Exact K)) (q b : Nat) : Vec2 (Exact K) :=
  (physicalP2Gradients it (rulePoint q).2)[b]!

section Pointwise

variable {cell : CellData (Exact K)} {D : Exact K} {it : Mat2 (Exact K)}

theorem stressMass_pointwise (h : cellGeometry cell = .ok (D, it)) :
    ∃ M, (stressMass (ρ := Exact K)).compute cell = .ok M ∧ Matrix.HasEntries 9 9 (fun r t =>
      if r % 3 = t % 3 then ∑ q ∈ range 3, (rulePoint q).1.val * D.val * rulePsi (r / 3) q *
        rulePsi (t / 3) q * basisNorm (r % 3) else 0) M := by
  obtain ⟨M, hM, hr, hc, hw, hget⟩ := stressMass_entries h
  refine ⟨M, hM, hr, hc, hw, fun r hr' t ht => ?_⟩
  rw [hget r hr' t ht]
  beta_reduce
  refine if_congr Iff.rfl ?_ rfl
  rw [sum_elementRule]
  refine sum_congr rfl fun q _ => ?_
  rw [Exact.val_mul, Exact.val_mul, Exact.val_mul, Exact.val_mul, p1Values_val _ (by omega),
    p1Values_val _ (by omega), symBasis_contract_val (by omega)]
  rfl

theorem strainStress_pointwise (m : PlaneStress (Exact K)) (h : cellGeometry cell = .ok (D, it)) :
    ∃ M, (strainStress m).compute cell = .ok M ∧ Matrix.HasEntries 9 12 (fun r c =>
      -∑ q ∈ range 3, (rulePoint q).1.val * D.val * rulePsi (r / 3) q *
        ((m.stressOfGradient ((Vec2.unit (c % 2)).outer (ruleGrad it q (c / 2)))).contract
          (symBasis (r % 3))).val) M := by
  obtain ⟨M, hM, hr, hc, hw, hget⟩ := strainStress_entries m h
  refine ⟨M, hM, hr, hc, hw, fun r hr' c hc' => ?_⟩
  rw [hget r hr' c hc']
  beta_reduce
  rw [sum_elementRule]
  refine congrArg Neg.neg (sum_congr rfl fun q _ => ?_)
  rw [Exact.val_mul, Exact.val_mul, Exact.val_mul, p1Values_val _ (by omega)]
  rfl

theorem stressDivergence_pointwise (h : cellGeometry cell = .ok (D, it)) :
    ∃ M, (stressDivergence (ρ := Exact K)).compute cell = .ok M ∧ Matrix.HasEntries 12 9 (fun r t =>
      -∑ q ∈ range 3, (rulePoint q).1.val * D.val * rulePsi (t / 3) q *
        (((symBasis (t % 3)).row (r % 2)).dot (ruleGrad it q (r / 2))).val) M := by
  obtain ⟨M, hM, hr, hc, hw, hget⟩ := stressDivergence_entries h
  refine ⟨M, hM, hr, hc, hw, fun r hr' t ht => ?_⟩
  rw [hget r hr' t ht]
  beta_reduce
  rw [sum_elementRule]
  refine congrArg Neg.neg (sum_congr rfl fun q _ => ?_)
  rw [Exact.val_mul, Exact.val_mul, Exact.val_mul, p1Values_val _ (by omega)]
  rfl

theorem displacementStiffness_pointwise (m : PlaneStress (Exact K))
    (h : cellGeometry cell = .ok (D, it)) :
    ∃ M, (displacementStiffness m).compute cell = .ok M ∧ Matrix.HasEntries 12 12 (fun r c =>
      -∑ q ∈ range 3, (rulePoint q).1.val * D.val *
        ((m.contraction (ruleGrad it q (r / 2)) (ruleGrad it q (c / 2))).entry (r % 2) (c % 2)).val) M := by
  obtain ⟨M, hM, hr, hc, hw, hget⟩ := displacementStiffness_entries m h
  refine ⟨M, hM, hr, hc, hw, fun r hr' c hc' => ?_⟩
  rw [hget r hr' c hc']
  beta_reduce
  rw [sum_elementRule]
  refine congrArg Neg.neg (sum_congr rfl fun q _ => ?_)
  rw [Mat2.entry_scale, Exact.val_mul, mul_comm]
  rfl

end Pointwise


variable [IsStrictOrderedRing K]

/-- At one point, the coupling of a displacement gradient `e_k ⊗ h` with the stress basis, weighed
by the rows of the basis against `g` and divided by the norms, is the elasticity contraction
`C(g, h)` in entry `(l, k)`. -/
theorem sum_symBasis_stress (m : PlaneStress (Exact K)) (hν : 1 + m.poisson.val ≠ 0)
    (hν' : 1 - m.poisson.val ≠ 0) (g h : Vec2 (Exact K)) {l k : Nat} (hl : l < 2) (hk : k < 2) :
    ∑ d ∈ range 3, (((symBasis d).row l).dot g).val *
        ((m.stressOfGradient ((Vec2.unit k).outer h)).contract (symBasis d)).val / basisNorm d =
      ((m.contraction g h).entry l k).val := by
  have hsq : 1 - m.poisson.val ^ 2 ≠ 0 := by
    rw [show (1 : K) - m.poisson.val ^ 2 = (1 + m.poisson.val) * (1 - m.poisson.val) by ring]
    exact mul_ne_zero hν hν'
  obtain rfl | rfl : l = 0 ∨ l = 1 := by omega
  all_goals obtain rfl | rfl : k = 0 ∨ k = 1 := by omega
  all_goals
    simp [sum_range_succ, symBasis, Mat2.row, Vec2.dot, PlaneStress.stressOfGradient,
      PlaneStress.stress, PlaneStress.contraction, PlaneStress.lame, Mat2.entry, Vec2.unit,
      Vec2.outer, Mat2.scale, Mat2.transpose, Mat2.scaledIdentity, Mat2.trace, Mat2.contract,
      basisNorm]
    field_simp
    ring

end MixedFem
