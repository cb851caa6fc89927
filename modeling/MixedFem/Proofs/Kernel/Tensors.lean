import MixedFem.Proofs.Matrix.Accumulate
import MixedFem.Kernel.Elasticity

/-!
# The element tensors of mixed elasticity in closed form

Over an exact field, each element tensor is the quadrature sum of its integrand, entry by entry.
The loops of a kernel visit every entry once per quadrature point, so each entry collects one
term per point: the tensors below are read off the loops by `Matrix.hasEntries_foldl_zeros`,
and the sums over the loop indices collapse to the one term whose row and column are the entry's.

* `Mat2.entry m l k` : the entry `(l, k)` of a `2 × 2` matrix; `Vec2.unit k` : `e_k`; the
  entries of sums and multiples;
* `cellGeometry_eq` : on a cell of nonzero determinant the geometry is `|det J|` and `J⁻ᵀ`;
* `stressMass_entries` : `(3a + c, 3b + d) ↦ [c = d] Σ w D ψ_a ψ_b (E_c : E_c)`;
* `strainStress_entries` : `(3a + c, 2b + k) ↦ -Σ w D ψ_a (σ(e_k ⊗ ∇φ_b) : E_c)`;
* `stressDivergence_entries` : `(2a + l, 3b + d) ↦ -Σ w D ψ_b (E_d row l · ∇φ_a)`;
* `displacementStiffness_entries` : `(2a + l, 2b + k) ↦ -Σ (w D C(∇φ_a, ∇φ_b))_{l k}`.

Here `D` is the `|det J|` that `cellGeometry` returns, and `ψ`, `∇φ` are read at each point of
`elementRule`.
-/

namespace MixedFem

/-- The entry `(l, k)` of a `2 × 2` matrix, rows and columns counted from `0`. -/
def Mat2.entry {ρ : Type} (m : Mat2 ρ) (l k : Nat) : ρ :=
  if l = 0 then (if k = 0 then m.a00 else m.a01) else (if k = 0 then m.a10 else m.a11)

/-- The unit vector `e_k`: `e₀` for `k = 0`, `e₁` otherwise. -/
def Vec2.unit {ρ : Type} [Scalar ρ] (k : Nat) : Vec2 ρ :=
  if k = 0 then ⟨Scalar.one, Scalar.zero⟩ else ⟨Scalar.zero, Scalar.one⟩

section Mat2

variable {ρ : Type} [RealScalar ρ] (a b : Mat2 ρ)

@[simp] theorem Mat2.add_a00 : (a + b).a00 = a.a00 + b.a00 := rfl

@[simp] theorem Mat2.add_a01 : (a + b).a01 = a.a01 + b.a01 := rfl

@[simp] theorem Mat2.add_a10 : (a + b).a10 = a.a10 + b.a10 := rfl

@[simp] theorem Mat2.add_a11 : (a + b).a11 = a.a11 + b.a11 := rfl

end Mat2

variable {K : Type} [Field K] [LinearOrder K]

theorem Mat2.entry_scale (M : Mat2 (Exact K)) (s : Exact K) (l k : Nat) :
    ((M.scale s).entry l k).val = (M.entry l k).val * s.val := by
  unfold Mat2.entry Mat2.scale
  split_ifs <;> rfl

/-- A cell of nonzero determinant passes the geometry check, with `|det J|` and `J⁻ᵀ`. -/
theorem cellGeometry_eq (cell : CellData (Exact K)) (h : cell.triangle.determinant.val ≠ 0) :
    ∃ it, cell.triangle.inverseTranspose? = some it ∧
      cellGeometry cell = .ok (RealScalar.abs cell.triangle.determinant, it) := by
  have hz : Scalar.isZero cell.triangle.determinant = false := by simp [h]
  have hinv : cell.triangle.inverseTranspose? = some (Mat2.transpose
      ⟨cell.triangle.jacobian.a11 / cell.triangle.determinant,
        -cell.triangle.jacobian.a01 / cell.triangle.determinant,
        -cell.triangle.jacobian.a10 / cell.triangle.determinant,
        cell.triangle.jacobian.a00 / cell.triangle.determinant⟩) := by
    simp only [Triangle.inverseTranspose?, Mat2.inverse?]
    rw [← Triangle.determinant, hz]
    rfl
  refine ⟨_, hinv, ?_⟩
  simp only [cellGeometry, hz, Exact.isFinite_eq, Bool.not_true, Bool.or_false, hinv]
  rfl

/-- The three norms `E_c : E_c` that `stressMass` tabulates, read at `c < 3`. -/
theorem symBasis_norms_getElem {c : Nat} (hc : c < 3) :
    (#[0, 1, 2].map fun c => (symBasis (ρ := Exact K) c).contract (symBasis c))[c]! =
      (symBasis c).contract (symBasis c) := by
  obtain rfl | rfl | rfl : c = 0 ∨ c = 1 ∨ c = 2 := by omega
  all_goals simp

variable {cell : CellData (Exact K)} {D : Exact K} {it : Mat2 (Exact K)}

/-- The stress mass tensor couples matching stress components only. -/
theorem stressMass_entries (h : cellGeometry cell = .ok (D, it)) :
    ∃ M, (stressMass (ρ := Exact K)).compute cell = .ok M ∧ Matrix.HasEntries 9 9 (fun i j =>
      if i % 3 = j % 3 then (elementRule.map fun x : Exact K × Vec2 (Exact K) =>
          (x.1 * D * (p1Values x.2)[i / 3]! * (p1Values x.2)[j / 3]! *
            (symBasis (i % 3)).contract (symBasis (i % 3))).val).sum else 0) M := by
  simp only [stressMass, h]
  simp only [Std.Legacy.Range.forIn_eq_forIn_range', List.forIn_pure_yield_eq_foldl, Id.run_pure,
    bind_pure_comp, Std.Legacy.Range.size, map_pure, Nat.sub_zero, Nat.add_sub_cancel,
    Nat.div_one, bind_pure]
  refine ⟨_, rfl, ?_⟩
  apply Matrix.hasEntries_foldl_zeros
  · apply Matrix.addsEntries_foldl
    intro x _
    apply Matrix.addsEntries_foldl
    intro a ha
    apply Matrix.addsEntries_foldl
    intro b hb
    apply Matrix.addsEntries_foldl
    intro c hc
    simp only [List.mem_range'_1] at ha hb hc
    exact Matrix.addsEntries_addAt (by omega) (by omega) _
  · intro i hi j hj
    simp only [sum_range'_eq_sum_range]
    by_cases hij : i % 3 = j % 3
    · rw [if_pos hij]
      refine congrArg List.sum (List.map_congr_left fun x _ => ?_)
      -- the loops run over `(a, b, c)`; only `a = i / 3`, `b = j / 3`, `c = i % 3` hit `(i, j)`
      rw [Finset.sum_eq_single_of_mem (i / 3) (Finset.mem_range.2 (by omega)) fun a _ hne =>
        Finset.sum_eq_zero fun b _ => Finset.sum_eq_zero fun c hc =>
          if_neg (by simp at hc; omega)]
      rw [Finset.sum_eq_single_of_mem (j / 3) (Finset.mem_range.2 (by omega)) fun b _ hne =>
        Finset.sum_eq_zero fun c hc => if_neg (by simp at hc; omega)]
      rw [Finset.sum_eq_single_of_mem (i % 3) (Finset.mem_range.2 (by omega)) fun c _ hne =>
        if_neg (by omega), if_pos (by omega), symBasis_norms_getElem (by omega), hij]
    · rw [if_neg hij]
      refine List.sum_eq_zero fun v hv => ?_
      obtain ⟨x, _, rfl⟩ := List.mem_map.1 hv
      exact Finset.sum_eq_zero fun a _ => Finset.sum_eq_zero fun b _ =>
        Finset.sum_eq_zero fun c _ => if_neg (by omega)

/-- The strain–stress tensor: the stress of each displacement gradient against each stress basis
function. -/
theorem strainStress_entries (m : PlaneStress (Exact K)) (h : cellGeometry cell = .ok (D, it)) :
    ∃ M, (strainStress m).compute cell = .ok M ∧ Matrix.HasEntries 9 12 (fun i j =>
      -(elementRule.map fun x : Exact K × Vec2 (Exact K) =>
          (x.1 * D * (p1Values x.2)[i / 3]! *
            (m.stressOfGradient ((Vec2.unit (j % 2)).outer (physicalP2Gradients it x.2)[j / 2]!)).contract
              (symBasis (i % 3))).val).sum) M := by
  simp only [strainStress, h]
  simp only [Std.Legacy.Range.forIn_eq_forIn_range', List.forIn_pure_yield_eq_foldl, Id.run_pure,
    bind_pure_comp, Std.Legacy.Range.size, map_pure, Nat.sub_zero, Nat.add_sub_cancel,
    Nat.div_one, bind_pure]
  refine ⟨_, rfl, ?_⟩
  apply Matrix.hasEntries_foldl_zeros
  · apply Matrix.addsEntries_foldl
    intro x _
    apply Matrix.addsEntries_foldl
    intro b hb
    apply Matrix.addsEntries_foldl
    intro k hk
    apply Matrix.addsEntries_foldl
    intro c hc
    apply Matrix.addsEntries_foldl
    intro a ha
    simp only [List.mem_range'_1] at ha hb hc hk
    exact Matrix.addsEntries_subAt (by omega) (by omega) _
  · intro i hi j hj
    simp only [sum_range'_eq_sum_range]
    rw [List.sum_neg, List.map_map]
    refine congrArg List.sum (List.map_congr_left fun x _ => ?_)
    -- the loops run over `(b, k, c, a)`; only `b = j / 2`, `k = j % 2`, `c = i % 3`, `a = i / 3`
    rw [Finset.sum_eq_single_of_mem (j / 2) (Finset.mem_range.2 (by omega)) fun b _ hne =>
      Finset.sum_eq_zero fun k hk => Finset.sum_eq_zero fun c _ => Finset.sum_eq_zero fun a _ =>
        if_neg (by simp at hk; omega)]
    rw [Finset.sum_eq_single_of_mem (j % 2) (Finset.mem_range.2 (by omega)) fun k _ hne =>
      Finset.sum_eq_zero fun c _ => Finset.sum_eq_zero fun a _ => if_neg (by omega)]
    rw [Finset.sum_eq_single_of_mem (i % 3) (Finset.mem_range.2 (by omega)) fun c hc hne =>
      Finset.sum_eq_zero fun a _ => if_neg (by simp at hc; omega)]
    rw [Finset.sum_eq_single_of_mem (i / 3) (Finset.mem_range.2 (by omega)) fun a _ hne =>
      if_neg (by omega), if_pos (by omega)]
    simp [Vec2.unit]

/-- The stress divergence tensor: each row of each stress basis function against each
displacement gradient. -/
theorem stressDivergence_entries (h : cellGeometry cell = .ok (D, it)) :
    ∃ M, (stressDivergence (ρ := Exact K)).compute cell = .ok M ∧ Matrix.HasEntries 12 9 (fun i j =>
      -(elementRule.map fun x : Exact K × Vec2 (Exact K) =>
          (x.1 * D * (p1Values x.2)[j / 3]! *
            ((symBasis (j % 3)).row (i % 2)).dot (physicalP2Gradients it x.2)[i / 2]!).val).sum) M := by
  simp only [stressDivergence, h]
  simp only [Std.Legacy.Range.forIn_eq_forIn_range', List.forIn_pure_yield_eq_foldl, Id.run_pure,
    bind_pure_comp, Std.Legacy.Range.size, map_pure, Nat.sub_zero, Nat.add_sub_cancel,
    Nat.div_one, bind_pure]
  refine ⟨_, rfl, ?_⟩
  apply Matrix.hasEntries_foldl_zeros
  · apply Matrix.addsEntries_foldl
    intro x _
    apply Matrix.addsEntries_foldl
    intro d hd
    apply Matrix.addsEntries_foldl
    intro a ha
    apply Matrix.addsEntries_foldl
    intro l hl
    apply Matrix.addsEntries_foldl
    intro b hb
    simp only [List.mem_range'_1] at ha hb hd hl
    exact Matrix.addsEntries_subAt (by omega) (by omega) _
  · intro i hi j hj
    simp only [sum_range'_eq_sum_range]
    rw [List.sum_neg, List.map_map]
    refine congrArg List.sum (List.map_congr_left fun x _ => ?_)
    -- the loops run over `(d, a, l, b)`; only `d = j % 3`, `a = i / 2`, `l = i % 2`, `b = j / 3`
    rw [Finset.sum_eq_single_of_mem (j % 3) (Finset.mem_range.2 (by omega)) fun d hd hne =>
      Finset.sum_eq_zero fun a _ => Finset.sum_eq_zero fun l _ => Finset.sum_eq_zero fun b _ =>
        if_neg (by simp at hd; omega)]
    rw [Finset.sum_eq_single_of_mem (i / 2) (Finset.mem_range.2 (by omega)) fun a _ hne =>
      Finset.sum_eq_zero fun l hl => Finset.sum_eq_zero fun b _ => if_neg (by simp at hl; omega)]
    rw [Finset.sum_eq_single_of_mem (i % 2) (Finset.mem_range.2 (by omega)) fun l hl hne =>
      Finset.sum_eq_zero fun b _ => if_neg (by simp at hl; omega)]
    rw [Finset.sum_eq_single_of_mem (j / 3) (Finset.mem_range.2 (by omega)) fun b _ hne =>
      if_neg (by omega), if_pos (by omega)]
    rfl

/-- The displacement stiffness tensor, one `2 × 2` block per pair of quadratic functions. -/
theorem displacementStiffness_entries (m : PlaneStress (Exact K))
    (h : cellGeometry cell = .ok (D, it)) :
    ∃ M, (displacementStiffness m).compute cell = .ok M ∧ Matrix.HasEntries 12 12 (fun i j =>
      -(elementRule.map fun x : Exact K × Vec2 (Exact K) =>
          (((m.contraction (physicalP2Gradients it x.2)[i / 2]!
            (physicalP2Gradients it x.2)[j / 2]!).scale (x.1 * D)).entry (i % 2) (j % 2)).val).sum) M := by
  simp only [displacementStiffness, h]
  simp only [Std.Legacy.Range.forIn_eq_forIn_range', List.forIn_pure_yield_eq_foldl, Id.run_pure,
    bind_pure_comp, Std.Legacy.Range.size, map_pure, Nat.sub_zero, Nat.add_sub_cancel,
    Nat.div_one, bind_pure]
  refine ⟨_, rfl, ?_⟩
  apply Matrix.hasEntries_foldl_zeros
  · apply Matrix.addsEntries_foldl
    intro x _
    apply Matrix.addsEntries_foldl
    intro a ha
    apply Matrix.addsEntries_foldl
    intro b hb
    simp only [List.mem_range'_1] at ha hb
    exact (((Matrix.addsEntries_subAt (by omega) (by omega) _).comp
      (Matrix.addsEntries_subAt (by omega) (by omega) _)).comp
      (Matrix.addsEntries_subAt (by omega) (by omega) _)).comp
      (Matrix.addsEntries_subAt (by omega) (by omega) _)
  · intro i hi j hj
    simp only [sum_range'_eq_sum_range]
    rw [List.sum_neg, List.map_map]
    refine congrArg List.sum (List.map_congr_left fun x _ => ?_)
    -- the block of `(a, b) = (i / 2, j / 2)` holds the entry; its parities pick one of four
    rw [Finset.sum_eq_single_of_mem (i / 2) (Finset.mem_range.2 (by omega)) fun a _ hne =>
      Finset.sum_eq_zero fun b _ => by
        rw [if_neg (by omega), if_neg (by omega), if_neg (by omega), if_neg (by omega)]
        simp]
    rw [Finset.sum_eq_single_of_mem (j / 2) (Finset.mem_range.2 (by omega)) fun b _ hne => by
      rw [if_neg (by omega), if_neg (by omega), if_neg (by omega), if_neg (by omega)]
      simp]
    simp only [Function.comp_apply, Mat2.entry]
    rcases Nat.mod_two_eq_zero_or_one i with hi2 | hi2 <;>
      rcases Nat.mod_two_eq_zero_or_one j with hj2 | hj2
    · rw [if_pos (by omega), if_neg (by omega), if_neg (by omega), if_neg (by omega), hi2, hj2]
      simp
    · rw [if_neg (by omega), if_pos (by omega), if_neg (by omega), if_neg (by omega), hi2, hj2]
      simp
    · rw [if_neg (by omega), if_neg (by omega), if_pos (by omega), if_neg (by omega), hi2, hj2]
      simp
    · rw [if_neg (by omega), if_neg (by omega), if_neg (by omega), if_pos (by omega), hi2, hj2]
      simp

end MixedFem
