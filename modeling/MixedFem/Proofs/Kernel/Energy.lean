import Mathlib.LinearAlgebra.Matrix.Symmetric
import Mathlib.Tactic.FieldSimp
import Mathlib.Tactic.LinearCombination
import Mathlib.Tactic.Positivity
import MixedFem.Proofs.Kernel.Pointwise
import MixedFem.Proofs.Matrix.Columns

/-!
# The displacement stiffness as an energy

The displacement stiffness of a cell is minus the quadrature of the plane-stress energy: for
nodal values `U`, interleaved as `2 a + l`, and the displacement gradient `G_q = Σ_a u_a ⊗ ∇φ_a`
at each point `q` of the rule,

  `Uᵀ A U = -Σ_q w_q |det J| (μ |G_q + G_qᵀ|² / 2 + λ (tr G_q)²)`.

With `E > 0` and `-1 < ν < 1` the energy density is `μ ((G₀₀ - G₁₁)² + (G₀₁ + G₁₀)²) +
(μ + λ) (tr G)²` with `μ > 0` and `μ + λ = E / (2 (1 - ν)) > 0`, also where `λ < 0`. So `-A` is
positive semidefinite, and `A U = 0` exactly when every `G_q` is skew: the strain vanishes at the
three points.

* `dof a l`, `sum_dof` : the interleaved numbering and sums over it;
* `Vec2.vals`, `contraction_entry` : the contraction `C(g, h)` of the material in the field;
* `dispGrad`, `lameStress`, `lameEnergy`, `IsSkew` : gradients, stresses, energies and skew
  tensors in the field; `lameEnergy_eq`, `lameEnergy_eq_zero_iff`;
* `displacementStiffness_mulVec` : `A` is symmetric, and `A U` is minus the quadrature of
  `σ(G_q) ∇φ_a`; `dotProduct_mulVec_eq_energy` : then `Uᵀ A U` is minus that of the energy;
* `displacementStiffness_kernel` : `Uᵀ A U ≤ 0`, and `A U = 0` exactly when the strain of `U`
  vanishes at the points of the rule.
-/

open scoped Matrix

namespace MixedFem

open Finset

/-! ## Interleaved degrees of freedom -/

/-- The degree of freedom of component `l` at node `a`: `2 a + l`. -/
def dof (a : Fin 6) (l : Fin 2) : Fin 12 := ⟨2 * a + l, by omega⟩

@[simp] theorem dof_div (a : Fin 6) (l : Fin 2) : (dof a l).val / 2 = a := by
  simp only [dof]
  omega

@[simp] theorem dof_mod (a : Fin 6) (l : Fin 2) : (dof a l).val % 2 = l := by
  simp only [dof]
  omega

theorem exists_dof (i : Fin 12) : ∃ a l, i = dof a l :=
  ⟨⟨i / 2, by omega⟩, ⟨i % 2, by omega⟩, Fin.ext (by simp only [dof]; omega)⟩

theorem sum_dof {M : Type} [AddCommMonoid M] (f : Fin 12 → M) :
    ∑ i, f i = ∑ a : Fin 6, ∑ l : Fin 2, f (dof a l) := by
  rw [← (finProdFinEquiv : Fin 6 × Fin 2 ≃ Fin 12).sum_comp, Fintype.sum_prod_type]
  refine sum_congr rfl fun a _ => sum_congr rfl fun l _ => congrArg f (Fin.ext ?_)
  simp only [finProdFinEquiv_apply_val, dof]
  omega

variable {K : Type} [Field K] [LinearOrder K]

/-! ## The material law in the field -/

/-- The components of a plane vector, in the field. -/
def Vec2.vals (v : Vec2 (Exact K)) : Fin 2 → K := ![v.x.val, v.y.val]

/-- The displacement gradient `Σ_a u_a ⊗ g_a` of the nodal values `U` against the gradients `g`
of the six quadratic functions. -/
def dispGrad (g : Fin 6 → Fin 2 → K) (U : Fin 12 → K) (l k : Fin 2) : K :=
  ∑ a, U (dof a l) * g a k

/-- The stress `μ (G + Gᵀ) + λ (tr G) I` of a displacement gradient. -/
def lameStress (mu lam : K) (G : Fin 2 → Fin 2 → K) (l k : Fin 2) : K :=
  mu * (G l k + G k l) + lam * (G 0 0 + G 1 1) * if l = k then 1 else 0

/-- The energy density `σ(G) : G`. -/
def lameEnergy (mu lam : K) (G : Fin 2 → Fin 2 → K) : K := ∑ l, ∑ k, lameStress mu lam G l k * G l k

/-- A tensor of zero symmetric part: a gradient of zero strain. -/
def IsSkew (G : Fin 2 → Fin 2 → K) : Prop := ∀ l k, G l k + G k l = 0

/-- The entry `(l, k)` of the contraction `μ (g·h I + h gᵀ) + λ g hᵀ`. -/
theorem contraction_entry (m : PlaneStress (Exact K)) (g h : Vec2 (Exact K)) (l k : Fin 2) :
    ((m.contraction g h).entry l k).val = m.lame.mu.val *
      ((g.vals ⬝ᵥ h.vals) * (if l = k then 1 else 0) + h.vals l * g.vals k) +
      m.lame.lambda.val * (g.vals l * h.vals k) := by
  fin_cases l <;> fin_cases k <;>
    simp [PlaneStress.contraction, Mat2.entry, Mat2.scale, Mat2.scaledIdentity, Vec2.outer,
      Vec2.dot, Vec2.vals, dotProduct, Fin.sum_univ_two] <;> ring

/-- The contraction is symmetric across its blocks: `C(g, h)_{lk} = C(h, g)_{kl}`. -/
theorem contraction_entry_comm (m : PlaneStress (Exact K)) (g h : Vec2 (Exact K)) (l k : Fin 2) :
    ((m.contraction g h).entry l k).val = ((m.contraction h g).entry k l).val := by
  rw [contraction_entry, contraction_entry, dotProduct_comm]
  by_cases hlk : l = k
  · subst hlk
    ring
  · rw [if_neg hlk, if_neg (Ne.symm hlk)]
    ring

/-- At one point, row `(a, l)` of the integrand applied to `U` is `σ(G) g_a`. -/
theorem sum_contraction_entry (m : PlaneStress (Exact K)) (g : Fin 6 → Vec2 (Exact K))
    (U : Fin 12 → K) (a : Fin 6) (l : Fin 2) :
    ∑ b, ∑ k : Fin 2, ((m.contraction (g a) (g b)).entry l k).val * U (dof b k) =
      ∑ k, lameStress m.lame.mu.val m.lame.lambda.val (dispGrad (fun b => (g b).vals) U) l k *
        (g a).vals k := by
  simp only [contraction_entry, lameStress, dispGrad, dotProduct, Fin.sum_univ_succ,
    Fin.sum_univ_zero]
  fin_cases l <;> simp <;> ring

omit [LinearOrder K] in
theorem lameEnergy_eq (mu lam : K) (G : Fin 2 → Fin 2 → K) :
    lameEnergy mu lam G =
      mu * ((G 0 0 - G 1 1) ^ 2 + (G 0 1 + G 1 0) ^ 2) + (mu + lam) * (G 0 0 + G 1 1) ^ 2 := by
  simp only [lameEnergy, lameStress, Fin.sum_univ_two, Fin.isValue, ↓reduceIte, Fin.reduceEq,
    mul_one, mul_zero, add_zero]
  ring

theorem isSkew_iff (G : Fin 2 → Fin 2 → K) [IsStrictOrderedRing K] :
    IsSkew G ↔ G 0 0 = 0 ∧ G 1 1 = 0 ∧ G 0 1 + G 1 0 = 0 := by
  constructor
  · intro h
    refine ⟨?_, ?_, h 0 1⟩
    · linarith [h 0 0]
    · linarith [h 1 1]
  · rintro ⟨h00, h11, h01⟩ l k
    fin_cases l <;> fin_cases k <;> simp [h00, h11, h01]
    linarith

theorem lameStress_of_isSkew [IsStrictOrderedRing K] {G : Fin 2 → Fin 2 → K} (h : IsSkew G)
    (mu lam : K) (l k : Fin 2) : lameStress mu lam G l k = 0 := by
  obtain ⟨h00, h11, -⟩ := (isSkew_iff G).1 h
  rw [lameStress, h l k, h00, h11]
  simp

section Positive

variable [IsStrictOrderedRing K] {mu lam : K} (hmu : 0 < mu) (hml : 0 < mu + lam)
include hmu hml

theorem lameEnergy_nonneg (G : Fin 2 → Fin 2 → K) : 0 ≤ lameEnergy mu lam G := by
  rw [lameEnergy_eq]
  positivity

/-- The energy vanishes exactly on the skew gradients, the ones of zero strain. -/
theorem lameEnergy_eq_zero_iff (G : Fin 2 → Fin 2 → K) : lameEnergy mu lam G = 0 ↔ IsSkew G := by
  rw [lameEnergy_eq, isSkew_iff]
  constructor
  · -- both terms are nonnegative, so both vanish, and with them the three squares
    intro h
    obtain ⟨hshear, hbulk⟩ := (add_eq_zero_iff_of_nonneg (by positivity) (by positivity)).1 h
    obtain ⟨hd, hs⟩ := (add_eq_zero_iff_of_nonneg (sq_nonneg _) (sq_nonneg _)).1
      ((mul_eq_zero.1 hshear).resolve_left hmu.ne')
    have ht := (pow_eq_zero_iff two_ne_zero).1 ((mul_eq_zero.1 hbulk).resolve_left hml.ne')
    have hd' := (pow_eq_zero_iff two_ne_zero).1 hd
    exact ⟨by linarith, by linarith, (pow_eq_zero_iff two_ne_zero).1 hs⟩
  · rintro ⟨h00, h11, h01⟩
    rw [h00, h11, h01]
    ring

end Positive

/-- The Lamé parameters of an admissible material: `μ > 0`, and `μ + λ = E / (2 (1 - ν)) > 0`. -/
theorem PlaneStress.lame_pos [IsStrictOrderedRing K] (m : PlaneStress (Exact K))
    (hE : 0 < m.young.val) (hν : -1 < m.poisson.val) (hν' : m.poisson.val < 1) :
    0 < m.lame.mu.val ∧ 0 < m.lame.mu.val + m.lame.lambda.val := by
  have h1 : 0 < 1 + m.poisson.val := by linarith
  have h2 : 0 < 1 - m.poisson.val := by linarith
  have hmu : m.lame.mu.val = m.young.val / (2 * (1 + m.poisson.val)) := by
    simp [PlaneStress.lame]
    field_simp
  have hsum : m.lame.mu.val + m.lame.lambda.val = m.young.val / (2 * (1 - m.poisson.val)) := by
    have hsq : (1 : K) - m.poisson.val * m.poisson.val = (1 + m.poisson.val) * (1 - m.poisson.val) :=
      by ring
    simp [PlaneStress.lame, hsq]
    field_simp
    ring
  rw [hsum, hmu]
  exact ⟨by positivity, by positivity⟩

/-! ## The stiffness of a cell -/

/-- The product of a tabulated matrix with a vector, read off its entries. -/
theorem values_mulVec {r c : Nat} {e : Nat → Nat → K} {M : Matrix (Exact K)}
    (h : M.HasEntries r c e) (U : Fin c → K) (i : Fin r) :
    (M.values r c *ᵥ U) i = ∑ j : Fin c, e i j * U j := by
  change ∑ j, M.values r c i j * U j = _
  exact sum_congr rfl fun j _ => by rw [Matrix.values_apply, h.2.2.2 i i.2 j j.2]

omit [LinearOrder K] in
/-- The pairing of nodal values with `S ∇φ_a`, summed over the nodes, is `S : G`. -/
theorem sum_mul_sum_dispGrad (g : Fin 6 → Fin 2 → K) (U : Fin 12 → K) (S : Fin 2 → Fin 2 → K) :
    ∑ a, ∑ l, U (dof a l) * ∑ k, S l k * g a k = ∑ l, ∑ k, S l k * dispGrad g U l k := by
  simp only [dispGrad, Fin.sum_univ_two, mul_sum, ← sum_add_distrib]
  exact sum_congr rfl fun a _ => by ring

theorem floatValue_ruleA_pos : 0 < floatValue ruleA := by decide +kernel

/-- The components of the physical gradients of the six quadratic functions at point `q` of the
rule. -/
noncomputable def ruleGradVals (it : Mat2 (Exact K)) (q : Nat) (a : Fin 6) : Fin 2 → K :=
  (ruleGrad it q a).vals

variable {cell : CellData (Exact K)} {D : Exact K} {it : Mat2 (Exact K)}

/-- The stiffness is symmetric, and row `(a, l)` of `A U` is minus the quadrature of
`(σ(G_q) ∇φ_a)_l`. -/
theorem displacementStiffness_mulVec (m : PlaneStress (Exact K))
    (h : cellGeometry cell = .ok (D, it)) :
    ∃ M, (displacementStiffness m).compute cell = .ok M ∧ M.rows = 12 ∧ M.cols = 12 ∧
      (M.values 12 12).IsSymm ∧ ∀ U a l, (M.values 12 12 *ᵥ U) (dof a l) =
        -∑ q ∈ range 3, (rulePoint q).1.val * D.val * ∑ k,
          lameStress m.lame.mu.val m.lame.lambda.val (dispGrad (ruleGradVals it q) U) l k *
            ruleGradVals it q a k := by
  obtain ⟨M, hM, hE⟩ := displacementStiffness_pointwise m h
  refine ⟨M, hM, hE.1, hE.2.1, Matrix.IsSymm.ext fun i j => ?_, fun U a l => ?_⟩
  · -- the blocks `(a, b)` and `(b, a)` are transposes of each other
    obtain ⟨a, l, rfl⟩ := exists_dof i
    obtain ⟨b, k, rfl⟩ := exists_dof j
    rw [Matrix.values_apply, Matrix.values_apply, hE.2.2.2 _ (dof b k).2 _ (dof a l).2,
      hE.2.2.2 _ (dof a l).2 _ (dof b k).2]
    simp only [dof_div, dof_mod]
    exact congrArg Neg.neg (sum_congr rfl fun q _ => by rw [contraction_entry_comm])
  · have hq : ∀ q, ∑ k, lameStress m.lame.mu.val m.lame.lambda.val
        (dispGrad (ruleGradVals it q) U) l k * ruleGradVals it q a k =
        ∑ b : Fin 6, ∑ k : Fin 2, ((m.contraction (ruleGrad it q a) (ruleGrad it q b)).entry l k).val *
          U (dof b k) := fun q => (sum_contraction_entry m (fun b => ruleGrad it q b) U a l).symm
    rw [values_mulVec hE, sum_dof]
    simp only [hq, dof_div, dof_mod, mul_sum, neg_mul, sum_neg_distrib, sum_mul]
    -- bring the sum over the points of the rule inside the sums over the columns
    simp only [sum_comm (s := range 3), mul_assoc]

omit [LinearOrder K] in
/-- A matrix whose rows are minus the quadrature of `σ(G_q) ∇φ_a` pairs a vector with itself to
minus the quadrature of the energy. -/
theorem dotProduct_mulVec_eq_energy {A : Fin 12 → Fin 12 → K} {mu lam : K} {c : Nat → K}
    {g : Nat → Fin 6 → Fin 2 → K}
    (hrow : ∀ U a l, (A *ᵥ U) (dof a l) =
      -∑ q ∈ range 3, c q * ∑ k, lameStress mu lam (dispGrad (g q) U) l k * g q a k)
    (U : Fin 12 → K) :
    U ⬝ᵥ (A *ᵥ U) = -∑ q ∈ range 3, c q * lameEnergy mu lam (dispGrad (g q) U) := by
  simp only [lameEnergy, ← sum_mul_sum_dispGrad]
  rw [dotProduct, sum_dof]
  simp only [hrow, mul_neg, sum_neg_distrib, mul_sum]
  simp only [sum_comm (s := range 3)]
  exact congrArg Neg.neg (sum_congr rfl fun a _ => sum_congr rfl fun l _ =>
    sum_congr rfl fun k _ => sum_congr rfl fun q _ => mul_left_comm _ _ _)

variable [IsStrictOrderedRing K]

/-- On a cell with `|det J| > 0` and for an admissible material, the stiffness is symmetric, `-A`
is positive semidefinite, and `A U = 0` exactly when the strain of `U` vanishes at the three
points of the rule. -/
theorem displacementStiffness_kernel (m : PlaneStress (Exact K)) (hE : 0 < m.young.val)
    (hν : -1 < m.poisson.val) (hν' : m.poisson.val < 1) (h : cellGeometry cell = .ok (D, it))
    (hD : 0 < D.val) :
    ∃ M, (displacementStiffness m).compute cell = .ok M ∧ M.rows = 12 ∧ M.cols = 12 ∧
      (M.values 12 12).IsSymm ∧ (∀ U, U ⬝ᵥ (M.values 12 12 *ᵥ U) ≤ 0) ∧
      ∀ U, M.values 12 12 *ᵥ U = 0 ↔ ∀ q < 3, IsSkew (dispGrad (ruleGradVals it q) U) := by
  obtain ⟨M, hM, hr, hc, hsymm, hrow⟩ := displacementStiffness_mulVec m h
  obtain ⟨hmu, hml⟩ := m.lame_pos hE hν hν'
  have hw : ∀ q ∈ range 3, 0 < (rulePoint q).1.val * D.val := fun q _ => by
    rw [(rulePoint_val q).1, refPoint_weight]
    exact mul_pos (Rat.cast_pos.2 floatValue_ruleA_pos) hD
  have hterm : ∀ U, ∀ q ∈ range 3, 0 ≤ (rulePoint q).1.val * D.val *
      lameEnergy m.lame.mu.val m.lame.lambda.val (dispGrad (ruleGradVals it q) U) :=
    fun U q hq => mul_nonneg (hw q hq).le (lameEnergy_nonneg hmu hml _)
  have hquad := dotProduct_mulVec_eq_energy hrow
  refine ⟨M, hM, hr, hc, hsymm, fun U => ?_, fun U => ⟨fun h0 q hq => ?_, fun hs => ?_⟩⟩
  · rw [hquad, neg_nonpos]
    exact sum_nonneg (hterm U)
  · -- a null vector has zero energy, and every term of the energy is nonnegative
    have hzero := hquad U
    rw [h0, dotProduct_zero, zero_eq_neg] at hzero
    have hq' := (sum_eq_zero_iff_of_nonneg (hterm U)).1 hzero q (mem_range.2 hq)
    exact (lameEnergy_eq_zero_iff hmu hml _).1
      ((mul_eq_zero.1 hq').resolve_left (hw q (mem_range.2 hq)).ne')
  · funext i
    obtain ⟨a, l, rfl⟩ := exists_dof i
    rw [hrow, Pi.zero_apply, neg_eq_zero]
    exact sum_eq_zero fun q hq => by simp [lameStress_of_isSkew (hs q (mem_range.1 hq))]

end MixedFem
