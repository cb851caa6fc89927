import Mathlib.LinearAlgebra.Matrix.Symmetric
import MixedFem.Proofs.Sparse.Termination
import MixedFem.Proofs.Sparse.Clamped
import MixedFem.Proofs.Sparse.Distance

/-!
# Positive definite systems from homogeneous Dirichlet conditions

Read in exact arithmetic, a valid sparse matrix is the matrix of its entries, and the operator of
a linear system built on it multiplies by that matrix. Eliminating the rows and columns of a set
`D` of degrees of freedom puts the positive scale `s` on the diagonal of `D` and keeps the rest,
so the quadratic form of the result is `s Σ_{i ∈ D} u_i² + ũᵀ A ũ`, with `ũ` the vector `u`
cleared on `D`. A symmetric positive semidefinite matrix whose nonzero null vectors do not vanish
on `D` becomes positive definite.

* `Csr.entries a n` : the `n × n` matrix of the entries; `Csr.entries_neg` : negation;
* `Csr.sum_positions_eq` : a stored row against a vector, as a sum over the columns;
* `SystemOperator.onVec_sparse` : the operator of a valid square matrix multiplies by its entries;
* `Csr.diagonalScale_pos`, `Csr.constrain_valid`, `Csr.entry_constrain` : the scale of the
  elimination is positive, the result is valid, and its entries;
* `Csr.dotProduct_entries_constrain` : the quadratic form after the elimination;
* `Csr.constrain_posDef` : the elimination gives a symmetric positive definite system.
-/

open scoped Matrix

namespace MixedFem

open Finset

variable {K : Type} [Field K] [LinearOrder K]

namespace Csr

variable {a : Csr (Exact K)} {n : Nat}

/-- The entries of the first `n` rows and columns, as a matrix over the field. -/
def entries (a : Csr (Exact K)) (n : Nat) := Matrix.of fun (i j : Fin n) => (a.entry i j).val

@[simp] theorem entries_apply (a : Csr (Exact K)) (n : Nat) (i j : Fin n) :
    a.entries n i j = (a.entry i j).val := rfl

/-- The value of an entry: the stored value at the first offset of the row listing the column. -/
theorem val_entry (a : Csr (Exact K)) (r c : Nat) :
    (a.entry r c).val = (((a.pattern.positions r).find? fun k => a.pattern.colIndices[k]! == c).map
      fun k => (a.values[k]!).val).getD 0 := by
  simp only [entry, get?, SparsityPattern.rowRange_eq, SparsityPattern.positions]
  cases List.find? _ _ <;> rfl

theorem val_getElem!_map_neg (x : Array (Exact K)) (k : Nat) :
    ((x.map (-·))[k]!).val = -(x[k]!).val := by
  by_cases hk : k < x.size
  · rw [getElem!_pos _ k (by simpa using hk), getElem!_pos x k hk, Array.getElem_map, Exact.val_neg]
  · rw [Exact.val_getElem!_default _ (by simpa using hk), Exact.val_getElem!_default _ (by omega),
      neg_zero]

theorem entry_neg (a : Csr (Exact K)) (r c : Nat) : (a.neg.entry r c).val = -(a.entry r c).val := by
  rw [val_entry, val_entry]
  simp only [neg]
  cases List.find? _ _ with
  | none => simp
  | some k => simp [val_getElem!_map_neg]

theorem entries_neg (a : Csr (Exact K)) (n : Nat) : a.neg.entries n = -a.entries n := by
  funext i j
  simp [entry_neg]

theorem Valid.neg (ha : a.Valid) : a.neg.Valid := ⟨ha.1, by simpa [Csr.neg, nnz] using ha.2⟩

/-- A stored row of a valid matrix against `x`: the sum over the columns of the entries times
`x`. The offsets of a row list distinct columns, so each entry collects one stored value. -/
theorem sum_positions_eq (ha : a.Valid) {r : Nat} (hr : r < a.nrows) (x : Nat → K) :
    ((a.pattern.positions r).map fun k => (a.values[k]!).val * x a.pattern.colIndices[k]!).sum =
      ∑ c ∈ range a.ncols, (a.entry r c).val * x c := by
  have hnodup : (a.pattern.positions r).Nodup := List.nodup_range' ..
  have hinj : ∀ k ∈ a.pattern.positions r, ∀ k' ∈ a.pattern.positions r,
      a.pattern.colIndices[k]! = a.pattern.colIndices[k']! → k = k' := fun k hk k' hk' =>
    ha.1.col_injective hr (SparsityPattern.mem_positions.1 hk).1
      (SparsityPattern.mem_positions.1 hk).2 (SparsityPattern.mem_positions.1 hk').1
      (SparsityPattern.mem_positions.1 hk').2
  -- each entry is the sum of the stored values of its column
  have hentry : ∀ c, (a.entry r c).val = ∑ k ∈ (a.pattern.positions r).toFinset,
      if a.pattern.colIndices[k]! = c then (a.values[k]!).val else 0 := fun c => by
    rw [List.sum_toFinset _ hnodup, Preconditioner.sum_map_ite_find? _ _ c hnodup hinj, val_entry]
  simp only [hentry, sum_mul, ite_mul, zero_mul]
  rw [sum_comm, ← List.sum_toFinset _ hnodup]
  refine sum_congr rfl fun k hk => ?_
  have hcol : a.pattern.colIndices[k]! < a.ncols := ha.1.col_lt_ncols hr (List.mem_toFinset.1 hk)
  rw [sum_ite_eq, if_pos (mem_range.2 hcol)]

end Csr

namespace SystemOperator

variable {a : Csr (Exact K)} {n : Nat}

/-- The operator of a valid `n × n` sparse matrix multiplies by the matrix of its entries. -/
theorem onVec_sparse (ha : a.Valid) (hr : a.nrows = n) (hc : a.ncols = n) (v : Fin n → K) :
    (SystemOperator.sparse a).onVec n v = a.entries n *ᵥ v := by
  funext i
  have hi : i.val < a.nrows := hr ▸ i.isLt
  simp only [onVec, Exact.toVec, product]
  have hrow := Csr.sum_positions_eq ha hi fun c => ((Exact.ofVec v)[c]!).val
  rw [getElem!_pos _ i.val (by simpa using hi), Array.getElem_ofFn, Exact.val_mk, Fin.val_mk, hrow,
    hc, ← Fin.sum_univ_eq_sum_range (fun c => (a.entry i c).val * ((Exact.ofVec v)[c]!).val)]
  refine sum_congr rfl fun j _ => ?_
  rw [getElem!_pos _ j.val (by simp)]
  simp [Exact.ofVec]

end SystemOperator

namespace Csr

variable {a a' : Csr (Exact K)} {n : Nat} {dofs : List Nat}

/-- The scale of an elimination, the magnitude of a nonzero diagonal entry or one, is positive. -/
theorem diagonalScale_pos [IsStrictOrderedRing K] (d : Array (Exact K)) : 0 < (diagonalScale d).val := by
  unfold diagonalScale
  split
  · rename_i x hx
    have hnz : ¬ x.val = 0 := by simpa using List.find?_some hx
    rw [Exact.val_abs]
    exact abs_pos.2 hnz
  · exact one_pos

/-- The elimination keeps the pattern and the number of stored values. -/
theorem constrain_valid (ha : a.Valid) (h : a.constrain dofs = .ok a') :
    a'.Valid ∧ a'.pattern = a.pattern := by
  obtain ⟨hsq, hd⟩ := constrain_ok_iff.1 ⟨a', h⟩
  obtain ⟨m, hm, -, -⟩ := markRows_eq hd
  have hrows : RowsConstrained a (diagonalScale (Array.ofFn fun i : Fin a.nrows => a.diagonalEntry i))
      dofs (dofs.foldl (a.constrainRow (diagonalScale (Array.ofFn fun i : Fin a.nrows =>
        a.diagonalEntry i))) (a.values, Array.replicate a.nrows false)) :=
    RowsConstrained.foldl ha dofs [] _ RowsConstrained.init hd
  obtain ⟨hsize, -⟩ := hrows.clearPass ha m
  simp only [constrain, Violation.requireEq, if_pos hsq, diagonal, hm] at h
  cases h
  exact ⟨⟨ha.1, hsize.trans ha.2⟩, rfl⟩

/-- A stored position holds a value. -/
theorem get?_isSome (ha : a.Valid) {r c : Nat} (h : a.pattern.Stores r c) : (a.get? r c).isSome := by
  obtain ⟨k, hk, rfl⟩ := (ha.1.stores_iff h.1 c).1 h
  rw [get?_offset ha.1 h.1 (SparsityPattern.mem_positions.1 hk).1
    (SparsityPattern.mem_positions.1 hk).2]
  rfl

/-- `u` cleared on the indices of `dofs`. -/
def clearOn (dofs : List Nat) (u : Fin n → K) : Fin n → K := fun i => if i.val ∈ dofs then 0 else u i

/-- After the elimination, the quadratic form is the scale times the squares of `u` on `dofs`,
plus the old form of `u` cleared on `dofs`. -/
theorem dotProduct_entries_constrain {s : K} {a' : Csr (Exact K)}
    (he : ∀ r c, (a'.entry r c).val =
      if r ∈ dofs ∨ c ∈ dofs then (if r = c then s else 0) else (a.entry r c).val) (u : Fin n → K) :
    u ⬝ᵥ (a'.entries n *ᵥ u) =
      s * ∑ i, (if i.val ∈ dofs then u i * u i else 0) +
        clearOn dofs u ⬝ᵥ (a.entries n *ᵥ clearOn dofs u) := by
  have hpt : ∀ i j : Fin n, u i * (a'.entry i j).val * u j =
      (if i = j then (if i.val ∈ dofs then s * (u i * u i) else 0) else 0) +
        clearOn dofs u i * (a.entry i j).val * clearOn dofs u j := by
    intro i j
    rw [he, clearOn, clearOn]
    by_cases hi : i.val ∈ dofs <;> by_cases hj : j.val ∈ dofs <;> by_cases hij : i = j
    all_goals simp [hi, hj, hij, Fin.val_inj]
    all_goals first | (subst hij; exact absurd hj hi) | ring
  simp only [Matrix.dot_mulVec_eq_sum_sum, entries_apply, hpt, sum_add_distrib]
  congr 1
  rw [mul_sum]
  refine sum_congr rfl fun j _ => ?_
  rw [sum_ite_eq', if_pos (mem_univ j)]
  split_ifs <;> simp

variable [IsStrictOrderedRing K]

/-- The entries after eliminating `dofs` from a valid square matrix with a symmetric pattern that
stores the diagonal of `dofs`: a positive scale `s` on that diagonal, zero elsewhere in the rows
and columns of `dofs`, the old entries outside them. -/
theorem entry_constrain (ha : a.Valid) (hsq : a.nrows = a.ncols)
    (hsym : ∀ r c, a.pattern.Stores r c → a.pattern.Stores c r)
    (hdiag : ∀ r ∈ dofs, a.pattern.Stores r r) (hd : ∀ d ∈ dofs, d < a.nrows) :
    ∃ s a', 0 < s ∧ a.constrain dofs = .ok a' ∧ a'.Valid ∧ a'.pattern = a.pattern ∧
      ∀ r c, (a'.entry r c).val =
        if r ∈ dofs ∨ c ∈ dofs then (if r = c then s else 0) else (a.entry r c).val := by
  obtain ⟨a', h, -, hget⟩ := constrain_get? ha hsq hsym hd
  obtain ⟨hvalid, hpat⟩ := constrain_valid ha h
  refine ⟨_, a', diagonalScale_pos (Array.ofFn fun i : Fin a.nrows => a.diagonalEntry i), h, hvalid,
    hpat, fun r c => ?_⟩
  simp only [entry, hget]
  split_ifs with hrc hdiag'
  · -- a diagonal position of `dofs` is stored, and holds the scale
    subst hdiag'
    have hr : r ∈ dofs := hrc.elim id id
    obtain ⟨v, hv⟩ := Option.isSome_iff_exists.1 (get?_isSome ha (hdiag r hr))
    simp [hv]
  · cases a.get? r c <;> simp
  · cases a.get? r c <;> simp

/-- Eliminating `dofs` from a valid `n × n` matrix with a symmetric pattern storing the diagonal
of `dofs`, whose entries are symmetric, whose quadratic form is nonnegative and vanishes at no
nonzero vector that is zero on `dofs`, gives a valid, symmetric positive definite system. -/
theorem constrain_posDef (ha : a.Valid) (hr : a.nrows = n) (hc : a.ncols = n)
    (hsym : ∀ r c, a.pattern.Stores r c → a.pattern.Stores c r)
    (hdiag : ∀ r ∈ dofs, a.pattern.Stores r r) (hd : ∀ d ∈ dofs, d < n)
    (hsymm : (a.entries n).IsSymm) (hpsd : ∀ u, 0 ≤ u ⬝ᵥ (a.entries n *ᵥ u))
    (hnull : ∀ u, (∀ i : Fin n, i.val ∈ dofs → u i = 0) → u ⬝ᵥ (a.entries n *ᵥ u) = 0 → u = 0) :
    ∃ a', a.constrain dofs = .ok a' ∧ a'.Valid ∧ (SystemOperator.sparse a').PosDef n := by
  obtain ⟨s, a', hs, h, hvalid, hpat, he⟩ :=
    entry_constrain ha (hr.trans hc.symm) hsym hdiag fun d hdm => hr ▸ hd d hdm
  have hr' : a'.nrows = n := by rw [nrows, hpat]; exact hr
  have hc' : a'.ncols = n := by rw [ncols, hpat]; exact hc
  have hop := SystemOperator.onVec_sparse hvalid hr' hc'
  -- the new entries are symmetric, as the old ones and the rule that replaces them are
  have hsymm' : (a'.entries n).IsSymm := Matrix.IsSymm.ext fun i j => by
    have hji : (a.entry j i).val = (a.entry i j).val := by
      simpa using congrFun (congrFun hsymm.eq i) j
    rw [entries_apply, entries_apply, he, he]
    by_cases hi : i.val ∈ dofs <;> by_cases hj : j.val ∈ dofs <;> simp [hi, hj, hji, eq_comm]
  refine ⟨a', h, hvalid, ⟨⟨hr', hc'⟩, fun u v => ?_, fun u hu => ?_⟩⟩
  · rw [hop, hop, Matrix.dotProduct_mulVec, ← Matrix.mulVec_transpose, hsymm'.eq]
  · rw [hop, dotProduct_entries_constrain he]
    have hsq : 0 ≤ ∑ i, (if i.val ∈ dofs then u i * u i else 0) :=
      sum_nonneg fun i _ => by split_ifs; exacts [mul_self_nonneg _, le_rfl]
    by_cases hD : ∃ i : Fin n, i.val ∈ dofs ∧ u i ≠ 0
    · -- `u` is nonzero on `dofs`: the scaled squares are positive
      obtain ⟨i, hi, hui⟩ := hD
      have hpos : 0 < ∑ i, (if i.val ∈ dofs then u i * u i else 0) :=
        sum_pos' (fun j _ => by split_ifs; exacts [mul_self_nonneg _, le_rfl])
          ⟨i, mem_univ i, by rw [if_pos hi]; exact mul_self_pos.2 hui⟩
      linarith [mul_pos hs hpos, hpsd (clearOn dofs u)]
    · -- `u` vanishes on `dofs`: clearing changes nothing, and the old form is positive at `u`
      push Not at hD
      have hclear : clearOn dofs u = u := funext fun i => by
        unfold clearOn
        split_ifs with hi
        · exact (hD i hi).symm
        · rfl
      have hzero : ∑ i, (if i.val ∈ dofs then u i * u i else 0) = 0 :=
        sum_eq_zero fun i _ => by split_ifs with hi <;> simp [hD i, hi]
      rw [hclear, hzero, mul_zero, zero_add]
      exact lt_of_le_of_ne (hpsd u) fun h0 => hu (hnull u hD h0.symm)

end Csr

end MixedFem
