import Mathlib.LinearAlgebra.Matrix.DotProduct
import MixedFem.Proofs.Assembly.Global
import MixedFem.Proofs.Sparse.Definite
import MixedFem.Proofs.Matrix.Columns

/-!
# The quadratic form of an assembled matrix

An assembled matrix holds at `(r, s)` the scatter sum of the element tensors. Read as a bilinear
form it is the sum over the cells of the element forms at the cells' restrictions,
`vᵀ A w = Σ_c v_cᵀ T_c w_c`, where `v_c` lists the values of `v` at the dofs of cell `c`. So the
assembly of symmetric tensors is symmetric, that of negative semidefinite tensors is negative
semidefinite, and a vector of zero energy is a null vector of every element tensor. Assembly
reads a kernel only through its shape and its tabulations on the cells of the mesh.

* `assemble_congr` : kernels of one shape that tabulate alike on the cells assemble alike;
* `extendByZero u` : a vector of `K^n` read at every index, zero past `n`;
* `FunctionSpace.restrict sp u c` : the values of `u` at the dofs of cell `c`;
* `dotProduct_scatterSum` : the bilinear form of the scatter sums, cell by cell;
* `scatterSum_symm`, `entry_eq_scatterSum` : symmetry, and the entries of an assembled matrix;
* `Matrix.IsSymm.mulVec_eq_zero_of_dotProduct_eq_zero` : a vector of zero energy of a symmetric negative
  semidefinite matrix is a null vector;
* `dotProduct_scatterSum_nonpos`, `mulVec_restrict_eq_zero` : the sign of the assembled form, and
  its vectors of zero energy.
-/

open scoped Matrix

namespace Matrix

variable {K : Type} [Field K] [LinearOrder K] [IsStrictOrderedRing K] {L : Nat}

/-- A vector of zero energy of a symmetric negative semidefinite matrix is a null vector: with
`a = |M U|²` and `b = (M U)ᵀ M (M U)`, the energy of `(1 - b) U + a M U` is `a² (2 - b)`. -/
theorem IsSymm.mulVec_eq_zero_of_dotProduct_eq_zero {M : Matrix (Fin L) (Fin L) K}
    (hsymm : M.IsSymm) (hneg : ∀ U, U ⬝ᵥ (M *ᵥ U) ≤ 0) {U : Fin L → K}
    (h0 : U ⬝ᵥ (M *ᵥ U) = 0) : M *ᵥ U = 0 := by
  -- `M` moves across the dot product
  have hUV : U ⬝ᵥ (M *ᵥ (M *ᵥ U)) = (M *ᵥ U) ⬝ᵥ (M *ᵥ U) := by
    rw [Matrix.dotProduct_mulVec, ← Matrix.mulVec_transpose, hsymm.eq, dotProduct_comm]
  have hexp : ∀ s t : K, (s • U + t • (M *ᵥ U)) ⬝ᵥ (M *ᵥ (s • U + t • (M *ᵥ U))) =
      2 * s * t * ((M *ᵥ U) ⬝ᵥ (M *ᵥ U)) + t ^ 2 * ((M *ᵥ U) ⬝ᵥ (M *ᵥ (M *ᵥ U))) := by
    intro s t
    simp only [Matrix.mulVec_add, Matrix.mulVec_smul, dotProduct_add, add_dotProduct,
      dotProduct_smul, smul_dotProduct, smul_eq_mul, h0, hUV]
    ring
  set a := (M *ᵥ U) ⬝ᵥ (M *ᵥ U)
  set b := (M *ᵥ U) ⬝ᵥ (M *ᵥ (M *ᵥ U))
  have hb : b ≤ 0 := hneg (M *ᵥ U)
  have ha : a ^ 2 * (2 - b) ≤ 0 := by
    have h := hneg ((1 - b) • U + a • (M *ᵥ U))
    rw [hexp] at h
    linarith
  have ha0 : a = 0 :=
    pow_eq_zero_iff two_ne_zero |>.1 (le_antisymm (nonpos_of_mul_nonpos_left ha (by linarith))
      (sq_nonneg a))
  exact dotProduct_self_eq_zero.1 ha0

end Matrix

namespace MixedFem

open Finset

/-- Two effectful folds whose steps agree on the elements of a list fold it alike. -/
theorem foldlM_congr_of_mem {m : Type → Type} [Monad m] {α σ : Type} {f g : σ → α → m σ} :
    ∀ {l : List α}, (∀ s, ∀ a ∈ l, f s a = g s a) → ∀ init, l.foldlM f init = l.foldlM g init
  | [], _, _ => rfl
  | a :: l, h, init => by
    simp only [List.foldlM_cons, h init a List.mem_cons_self]
    congr 1
    funext s
    exact foldlM_congr_of_mem (fun s b hb => h s b (List.mem_cons_of_mem a hb)) s

/-- Assembly reads a kernel through its shape and its tabulations on the cells of the order. -/
theorem assemble_congr {ρ : Type} [RealScalar ρ] {mesh : Mesh ρ} {test trial : FunctionSpace}
    {k k' : ElementKernel ρ} (hshape : k.shape = k'.shape) {order : List Nat}
    (htab : ∀ c ∈ order,
      k.tabulate ⟨c, mesh.cellTriangle c⟩ = k'.tabulate ⟨c, mesh.cellTriangle c⟩) :
    assemble mesh test trial k order = assemble mesh test trial k' order := by
  have hcells : tabulateCells k mesh order = tabulateCells k' mesh order := by
    unfold tabulateCells
    rw [hshape]
    exact foldlM_congr_of_mem (fun ts c hc => by simp only [tabulateCell, htab c hc]) _
  simp only [assemble, assembleInto, hshape, hcells]

section Scatter

variable {K : Type} [Field K]

/-- A vector of `K^n` read at every index, zero past `n`. -/
def extendByZero {n : Nat} (u : Fin n → K) (i : Nat) : K := if h : i < n then u ⟨i, h⟩ else 0

/-- The values of `u` at the dofs of cell `c`, in the local order. -/
def FunctionSpace.restrict (sp : FunctionSpace) (u : Nat → K) (c : Nat) : Fin sp.localDim → K :=
  fun i => u (sp.dofsOf c)[i.val]!

/-- Picking the index `d` out of a sum over `Fin n`. -/
theorem sum_fin_ite_val {n : Nat} (d : Nat) (f : Fin n → K) :
    ∑ r : Fin n, (if d = r.val then f r else 0) = extendByZero f d := by
  unfold extendByZero
  split_ifs with h
  · rw [sum_eq_single ⟨d, h⟩ (fun r _ hr => if_neg fun e => hr (Fin.ext e.symm))
      (fun h' => absurd (mem_univ _) h'), if_pos rfl]
  · exact sum_eq_zero fun r _ => if_neg fun (e : d = r.val) => h (e ▸ r.isLt)

/-- One entry `t` scattered to `(d, d')` pairs `v` and `w` at those indices. -/
theorem sum_sum_scatter {R S : Nat} (v : Fin R → K) (w : Fin S → K) (d d' : Nat) (t : K) :
    ∑ s : Fin S, ∑ r : Fin R, v r * (if d = r.val ∧ d' = s.val then t else 0) * w s =
      extendByZero v d * t * extendByZero w d' := by
  calc ∑ s : Fin S, ∑ r : Fin R, v r * (if d = r.val ∧ d' = s.val then t else 0) * w s
      = ∑ s : Fin S, (∑ r : Fin R, if d = r.val then v r else 0) * t *
          (if d' = s.val then w s else 0) := by
        refine sum_congr rfl fun s _ => ?_
        rw [sum_mul, sum_mul]
        refine sum_congr rfl fun r _ => ?_
        by_cases hr : d = r.val <;> by_cases hs : d' = s.val <;> simp [hr, hs]
    _ = extendByZero v d * t * extendByZero w d' := by
        rw [← mul_sum, sum_fin_ite_val, sum_fin_ite_val]

variable [LinearOrder K] {test trial : FunctionSpace} {nc : Nat} {T : Nat → Matrix (Exact K)}

/-- The bilinear form of the scatter sums is the sum over the cells of the element forms at the
restrictions. -/
theorem dotProduct_scatterSum {R S : Nat} (v : Fin R → K) (w : Fin S → K) :
    v ⬝ᵥ ((Matrix.of fun (r : Fin R) (s : Fin S) => scatterSum test trial nc T r s) *ᵥ w) =
      ∑ c ∈ range nc, test.restrict (extendByZero v) c ⬝ᵥ
        ((T c).values test.localDim trial.localDim *ᵥ trial.restrict (extendByZero w) c) := by
  simp only [Matrix.dot_mulVec_eq_sum_sum, Matrix.of_apply, Matrix.values_apply, scatterSum,
    FunctionSpace.restrict, mul_sum, sum_mul]
  -- the cells and local positions outside, the global positions inside
  simp only [sum_comm (s := (univ : Finset (Fin R))) (t := range nc),
    sum_comm (s := (univ : Finset (Fin S))) (t := range nc),
    sum_comm (s := (univ : Finset (Fin R))) (t := range test.localDim),
    sum_comm (s := (univ : Finset (Fin S))) (t := range test.localDim),
    sum_comm (s := (univ : Finset (Fin R))) (t := range trial.localDim),
    sum_comm (s := (univ : Finset (Fin S))) (t := range trial.localDim)]
  refine sum_congr rfl fun c _ => ?_
  rw [sum_comm, sum_range]
  simp only [sum_range]
  exact sum_congr rfl fun j _ => sum_congr rfl fun i _ => sum_sum_scatter v w _ _ _

/-- Element tensors symmetric on their local positions scatter to a symmetric sum. -/
theorem scatterSum_symm {sp : FunctionSpace}
    (hT : ∀ c < nc, ∀ i < sp.localDim, ∀ j < sp.localDim, ((T c).get i j).val = ((T c).get j i).val)
    (r s : Nat) : scatterSum sp sp nc T r s = scatterSum sp sp nc T s r := by
  unfold scatterSum
  refine sum_congr rfl fun c hc => ?_
  rw [sum_comm]
  exact sum_congr rfl fun i hi => sum_congr rfl fun j hj =>
    if_congr and_comm (hT c (mem_range.1 hc) j (mem_range.1 hj) i (mem_range.1 hi)) rfl

omit [Field K] [LinearOrder K] in
theorem Coupled.symm {sp : FunctionSpace} {r s : Nat} (h : Coupled sp sp nc r s) :
    Coupled sp sp nc s r := by
  obtain ⟨c, hc, hr, hs⟩ := h
  exact ⟨c, hc, hs, hr⟩

/-- Positions that no cell couples receive nothing. -/
theorem scatterSum_eq_zero (hdt : test.DofsInRange) (hdr : trial.DofsInRange)
    (htest : test.numCells = nc) (htrial : trial.numCells = nc) {r s : Nat}
    (h : ¬ Coupled test trial nc r s) : scatterSum test trial nc T r s = 0 := by
  refine sum_eq_zero fun c hc => sum_eq_zero fun i hi => sum_eq_zero fun j hj => if_neg ?_
  rintro ⟨rfl, rfl⟩
  have hc' := mem_range.1 hc
  refine h ⟨c, hc', getElem!_mem_toList ?_, getElem!_mem_toList ?_⟩
  · rw [(hdt c (htest ▸ hc')).1]
    exact mem_range.1 hi
  · rw [(hdr c (htrial ▸ hc')).1]
    exact mem_range.1 hj

/-- Every entry of a matrix that stores the coupled positions with their scatter sums is its
scatter sum. -/
theorem entry_eq_scatterSum {A : Csr (Exact K)} (hA : A.Valid)
    (hst : ∀ r s, A.pattern.Stores r s ↔ Coupled test trial nc r s)
    (hget : ∀ r s, Coupled test trial nc r s →
      A.get? r s = some (Exact.mk (scatterSum test trial nc T r s)))
    (hdt : test.DofsInRange) (hdr : trial.DofsInRange) (htest : test.numCells = nc)
    (htrial : trial.numCells = nc) (r s : Nat) :
    (A.entry r s).val = scatterSum test trial nc T r s := by
  by_cases h : Coupled test trial nc r s
  · rw [Csr.entry, hget r s h]
    rfl
  · rw [Csr.entry_of_not_stores hA fun hs => h ((hst r s).1 hs),
      scatterSum_eq_zero hdt hdr htest htrial h]
    rfl

section Sign

variable [IsStrictOrderedRing K]

variable {sp : FunctionSpace}

/-- Negative semidefinite element tensors assemble to a negative semidefinite form. -/
theorem dotProduct_scatterSum_nonpos
    (hT : ∀ c < nc, ∀ U, U ⬝ᵥ ((T c).values sp.localDim sp.localDim *ᵥ U) ≤ 0) {R : Nat}
    (u : Fin R → K) :
    u ⬝ᵥ ((Matrix.of fun (r s : Fin R) => scatterSum sp sp nc T r s) *ᵥ u) ≤ 0 := by
  rw [dotProduct_scatterSum]
  exact sum_nonpos fun c hc => hT c (mem_range.1 hc) _

/-- A vector of zero energy for the assembly of symmetric negative semidefinite element tensors
restricts to a null vector of every element tensor. -/
theorem mulVec_restrict_eq_zero (hsymm : ∀ c < nc, ((T c).values sp.localDim sp.localDim).IsSymm)
    (hT : ∀ c < nc, ∀ U, U ⬝ᵥ ((T c).values sp.localDim sp.localDim *ᵥ U) ≤ 0) {R : Nat}
    {u : Fin R → K} (h0 : u ⬝ᵥ ((Matrix.of fun (r s : Fin R) => scatterSum sp sp nc T r s) *ᵥ u) = 0)
    {c : Nat} (hc : c < nc) :
    (T c).values sp.localDim sp.localDim *ᵥ sp.restrict (extendByZero u) c = 0 := by
  rw [dotProduct_scatterSum] at h0
  -- every cell's energy is at most zero, and they add up to zero
  have hcell := (sum_eq_zero_iff_of_nonpos fun c hc => hT c (mem_range.1 hc) _).1 h0 c
    (mem_range.2 hc)
  exact (hsymm c hc).mulVec_eq_zero_of_dotProduct_eq_zero (hT c hc) hcell

end Sign

end Scatter

end MixedFem
