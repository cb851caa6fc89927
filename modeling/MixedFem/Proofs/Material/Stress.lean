import MixedFem.Proofs.Kernel.Rigid

/-!
# The plane-stress law in Lamé form

The material law is written twice. The stress of the mixed forms is
`E / (1 - ν²) ((1 - ν) ε + ν tr(ε) I)` of the strain `ε = (G + Gᵀ) / 2`; the stiffness of the
displacement form is the contraction `μ (a·b I + b aᵀ) + λ* a bᵀ`, with
`μ = E / (2 (1 + ν))` and `λ* = E ν / (1 - ν²)`. Read over an ordered field the first is
`μ (G + Gᵀ) + λ* tr(G) I` as soon as `1 ± ν ≠ 0`, which is `lameStress`; everything else is read
off that form.

* `Mat2.ext_vals`, `Mat2.contract_val` : a matrix is its entries in the field, and `A : B`
  read there;
* `lameStress_symm`, `sum_lameStress_rankOne`, `lameStress_add_skew` : the Lamé stress is
  symmetric, on `e_k bᵀ` measured against `e_l aᵀ` it is entry `(l, k)` of the contraction, and
  it sees only the symmetric part of a gradient;
* `PlaneStress.make_eq_ok_iff` : the materials that `make` accepts;
* `PlaneStress.stressOfGradient_vals` : the stress of a gradient in Lamé form, and from it
  `contraction_entry_eq_contract`, `stressOfGradient_add_skew`, `stressOfGradient_transpose`,
  `contract_stressOfGradient_pos`;
* `PlaneStress.Laws`, `PlaneStress.make_laws` : all of it, for every accepted material.
-/

namespace MixedFem

/-! ## Matrices in the field -/

section Vals

variable {K : Type}

theorem Mat2.ext_vals {M N : Mat2 (Exact K)} (h : M.vals = N.vals) : M = N := by
  obtain ⟨a, b, c, d⟩ := M
  obtain ⟨a', b', c', d'⟩ := N
  have h00 := congrFun (congrFun h 0) 0
  have h01 := congrFun (congrFun h 0) 1
  have h10 := congrFun (congrFun h 1) 0
  have h11 := congrFun (congrFun h 1) 1
  simp only [Mat2.vals, Matrix.cons_val_zero, Matrix.cons_val_one] at h00 h01 h10 h11
  rw [Exact.ext h00, Exact.ext h01, Exact.ext h10, Exact.ext h11]

@[simp] theorem Mat2.vals_transpose (M : Mat2 (Exact K)) (l k : Fin 2) :
    M.transpose.vals l k = M.vals k l := by
  fin_cases l <;> fin_cases k <;> rfl

end Vals

variable {K : Type} [Field K] [LinearOrder K]

@[simp] theorem Mat2.vals_add (M N : Mat2 (Exact K)) (l k : Fin 2) :
    (M + N).vals l k = M.vals l k + N.vals l k := by
  fin_cases l <;> fin_cases k <;> rfl

/-- `A : B`, the sum of the products of the entries. -/
theorem Mat2.contract_val (A B : Mat2 (Exact K)) :
    (A.contract B).val = ∑ l, ∑ k, A.vals l k * B.vals l k := by
  simp only [Mat2.contract, Exact.val_add, Exact.val_mul, Exact.val_zero, Fin.sum_univ_two]
  simp [Mat2.vals]
  ring

/-- The entries of `a bᵀ`. -/
@[simp] theorem Vec2.outer_vals (a b : Vec2 (Exact K)) (l k : Fin 2) :
    (a.outer b).vals l k = a.vals l * b.vals k := by
  fin_cases l <;> fin_cases k <;> rfl

/-- `W + Wᵀ = 0` says exactly that `W` is skew. -/
theorem Mat2.add_transpose_eq_zero_iff (W : Mat2 (Exact K)) :
    (W + W.transpose).vals = 0 ↔ IsSkew W.vals := by
  constructor
  · intro h l k
    simpa using congrFun (congrFun h l) k
  · intro h
    funext l k
    simpa using h l k

/-! ## The Lamé stress -/

section Lame

variable {mu lam : K}

omit [LinearOrder K] in
/-- The Lamé stress is symmetric. -/
theorem lameStress_symm (G : Fin 2 → Fin 2 → K) (l k : Fin 2) :
    lameStress mu lam G l k = lameStress mu lam G k l := by
  unfold lameStress
  by_cases hlk : l = k
  · rw [hlk]
  · rw [if_neg hlk, if_neg (Ne.symm hlk), add_comm (G l k)]

/-- The stress of the rank-one gradient `e_k bᵀ` measured against `e_l aᵀ`. -/
theorem sum_lameStress_rankOne (a b : Vec2 (Exact K)) (l k : Fin 2) :
    ∑ i, ∑ j,
        lameStress mu lam ((Vec2.unit k).outer b).vals i j * ((Vec2.unit l).outer a).vals i j =
      mu * ((a.vals ⬝ᵥ b.vals) * (if l = k then 1 else 0) + b.vals l * a.vals k) +
        lam * (a.vals l * b.vals k) := by
  fin_cases l <;> fin_cases k <;>
    simp [Vec2.unit, Vec2.vals, lameStress, Fin.sum_univ_two, dotProduct] <;> ring

/-- The Lamé stress sees a gradient only through its symmetric part. -/
theorem lameStress_add_skew [IsStrictOrderedRing K] (G W : Fin 2 → Fin 2 → K) (hW : IsSkew W) :
    lameStress mu lam (G + W) = lameStress mu lam G := by
  obtain ⟨h00, h11, -⟩ := (isSkew_iff W).1 hW
  funext l k
  simp only [lameStress, Pi.add_apply, h00, h11, add_zero]
  linear_combination mu * hW l k

end Lame

/-! ## The material -/

namespace PlaneStress

/-- `make` accepts exactly `E > 0` and `-1 < ν < 1`, and keeps both. -/
theorem make_eq_ok_iff {E ν : Exact K} {m : PlaneStress (Exact K)} :
    PlaneStress.make E ν = .ok m ↔ (0 < E.val ∧ -1 < ν.val ∧ ν.val < 1) ∧ m = ⟨E, ν⟩ := by
  constructor
  · intro h
    by_cases hb : 0 < E.val ∧ -1 < ν.val ∧ ν.val < 1
    · rw [make_eq_ok hb.1 hb.2.1 hb.2.2] at h
      exact ⟨hb, (Except.ok.inj h).symm⟩
    · -- a refused argument ends the run in the error of its check
      exfalso
      simp only [PlaneStress.make, Violation.require, gt_iff_lt, Exact.lt_iff, Exact.val_ofFloat,
        Exact.val_neg, floatValue_zero, floatValue_one, Rat.cast_zero, Rat.cast_one] at h
      by_cases hE : 0 < E.val <;> by_cases h1 : -1 < ν.val <;> by_cases h2 : ν.val < 1 <;>
        simp_all [bind, Except.bind]
  · rintro ⟨⟨hE, hν, hν'⟩, rfl⟩
    exact make_eq_ok hE hν hν'

variable [IsStrictOrderedRing K]

/-- With `1 ± ν ≠ 0` the stress of a gradient is `μ (G + Gᵀ) + λ* tr(G) I`. -/
theorem stressOfGradient_vals (m : PlaneStress (Exact K))
    (hν : 1 + m.poisson.val ≠ 0) (hν' : 1 - m.poisson.val ≠ 0) (G : Mat2 (Exact K)) :
    (m.stressOfGradient G).vals = lameStress m.lame.mu.val m.lame.lambda.val G.vals := by
  have hsq : 1 - m.poisson.val ^ 2 ≠ 0 := by
    rw [show (1 : K) - m.poisson.val ^ 2 = (1 + m.poisson.val) * (1 - m.poisson.val) by ring]
    exact mul_ne_zero hν hν'
  funext l k
  fin_cases l <;> fin_cases k <;>
    simp [Mat2.vals, stressOfGradient, stress, lame, lameStress, Mat2.scale, Mat2.transpose,
      Mat2.scaledIdentity, Mat2.trace] <;> field_simp <;> ring

section Poisson

variable (m : PlaneStress (Exact K)) (hν : 1 + m.poisson.val ≠ 0) (hν' : 1 - m.poisson.val ≠ 0)
include hν hν'

/-- Entry `(l, k)` of the contraction `C(a, b)` is the stress of `e_k bᵀ` against `e_l aᵀ`: the
stiffness of the displacement form is the stress of the mixed forms on rank-one gradients. -/
theorem contraction_entry_eq_contract (a b : Vec2 (Exact K)) (l k : Fin 2) :
    ((m.contraction a b).entry l k).val =
      ((m.stressOfGradient ((Vec2.unit k).outer b)).contract ((Vec2.unit l).outer a)).val := by
  rw [contraction_entry, Mat2.contract_val, stressOfGradient_vals m hν hν', sum_lameStress_rankOne]

theorem stressOfGradient_add_skew (G W : Mat2 (Exact K)) (hW : (W + W.transpose).vals = 0) :
    m.stressOfGradient (G + W) = m.stressOfGradient G := by
  refine Mat2.ext_vals ?_
  rw [stressOfGradient_vals m hν hν', stressOfGradient_vals m hν hν',
    show (G + W).vals = G.vals + W.vals from funext₂ (Mat2.vals_add G W),
    lameStress_add_skew _ _ ((Mat2.add_transpose_eq_zero_iff W).1 hW)]

theorem stressOfGradient_transpose (G : Mat2 (Exact K)) :
    (m.stressOfGradient G).transpose = m.stressOfGradient G := by
  refine Mat2.ext_vals (funext₂ fun l k => ?_)
  rw [Mat2.vals_transpose, stressOfGradient_vals m hν hν', lameStress_symm]

/-- The energy `σ(G) : G` is the Lamé energy of `G`. -/
theorem contract_stressOfGradient (G : Mat2 (Exact K)) :
    ((m.stressOfGradient G).contract G).val =
      lameEnergy m.lame.mu.val m.lame.lambda.val G.vals := by
  rw [Mat2.contract_val, stressOfGradient_vals m hν hν']
  rfl

end Poisson

/-- An admissible material stores positive energy in every gradient of nonzero strain, also for
`ν < 0`, where `λ*` is negative. -/
theorem contract_stressOfGradient_pos (m : PlaneStress (Exact K)) (hE : 0 < m.young.val)
    (hν : -1 < m.poisson.val) (hν' : m.poisson.val < 1) (G : Mat2 (Exact K))
    (hG : (G + G.transpose).vals ≠ 0) : 0 < ((m.stressOfGradient G).contract G).val := by
  obtain ⟨hmu, hml⟩ := lame_pos m hE hν hν'
  rw [contract_stressOfGradient m (by linarith) (by linarith)]
  -- the Lamé energy is a sum of squares that vanishes only on skew gradients
  refine lt_of_le_of_ne (lameEnergy_nonneg hmu hml _) fun h0 => hG ?_
  exact (Mat2.add_transpose_eq_zero_iff G).2 ((lameEnergy_eq_zero_iff hmu hml _).1 h0.symm)

/-- What the plane-stress law of a material satisfies, read in the field. -/
structure Laws (m : PlaneStress (Exact K)) : Prop where
  /-- Entry `(l, k)` of the contraction `C(a, b)` is the stress of `e_k bᵀ` against `e_l aᵀ`. -/
  contraction_eq : ∀ (a b : Vec2 (Exact K)) (l k : Fin 2), ((m.contraction a b).entry l k).val =
    ((m.stressOfGradient ((Vec2.unit k).outer b)).contract ((Vec2.unit l).outer a)).val
  /-- A skew part, the gradient of an infinitesimal rotation, adds no stress. -/
  add_skew : ∀ G W : Mat2 (Exact K), (W + W.transpose).vals = 0 →
    m.stressOfGradient (G + W) = m.stressOfGradient G
  symmetric : ∀ G : Mat2 (Exact K), (m.stressOfGradient G).transpose = m.stressOfGradient G
  /-- The energy `σ(G) : G` is positive on every gradient of nonzero strain. -/
  energy_pos : ∀ G : Mat2 (Exact K), (G + G.transpose).vals ≠ 0 →
    0 < ((m.stressOfGradient G).contract G).val

/-- Every material that `make` accepts satisfies the plane-stress laws: the displacement
stiffness and the stress of the mixed forms are one law, which ignores rotations, is symmetric,
and stores positive energy in every strain. -/
theorem make_laws {E ν : Exact K} {m : PlaneStress (Exact K)} (h : PlaneStress.make E ν = .ok m) :
    m.Laws := by
  obtain ⟨⟨hE, hν, hν'⟩, rfl⟩ := make_eq_ok_iff.1 h
  have h1 : (1 : K) + ν.val ≠ 0 := by linarith
  have h2 : (1 : K) - ν.val ≠ 0 := by linarith
  exact ⟨contraction_entry_eq_contract _ h1 h2, stressOfGradient_add_skew _ h1 h2,
    stressOfGradient_transpose _ h1 h2, contract_stressOfGradient_pos _ hE hν hν'⟩

/-- The laws for `E = 1`, `ν = -1/2`, a material that widens under tension. -/
theorem make_laws_auxetic :
    PlaneStress.make (Exact.mk (1 : ℚ)) (Exact.mk (-1 / 2)) = .ok ⟨Exact.mk 1, Exact.mk (-1 / 2)⟩ ∧
      (⟨Exact.mk 1, Exact.mk (-1 / 2)⟩ : PlaneStress (Exact ℚ)).Laws := by
  have h := make_eq_ok (K := ℚ) (E := Exact.mk 1) (ν := Exact.mk (-1 / 2)) (by norm_num)
    (by norm_num) (by norm_num)
  exact ⟨h, make_laws h⟩

end PlaneStress

end MixedFem
