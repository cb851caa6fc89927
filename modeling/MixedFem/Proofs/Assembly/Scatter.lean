import Mathlib.Algebra.BigOperators.Group.Finset.Basic
import MixedFem.Assembly.Matrix
import MixedFem.Proofs.Exact
import MixedFem.Proofs.Loop
import MixedFem.Proofs.Sparse.Rows

/-!
# Adding an element tensor to a sparse matrix

`addElement` adds the tensor of one cell row by row. Within a row it visits the element's
columns in increasing global dof and searches the stored row forward only, from where the last
column was found. Main statement: when the row lists columns in increasing order, each column of
the element is stored in the row and the element's trial dofs are distinct, every column is
found, and each offset gains exactly the entries whose test dof's row holds the offset and
whose trial dof is its column (`addElement_eq_ok`).

* `seekColumn_eq_some` : the forward search finds the first offset holding the column;
* `addElementEntry_foldlM` : one element row, column after column, the search never passing the
  next column's offset; `addElementRow_eq_ok`;
* `pairwise_mergeSort_cols` : the sort of `addElement` puts distinct dofs in increasing order.
-/

namespace MixedFem

open SparsityPattern

theorem seekColumn_eq_some {cols : Array Nat} {target k e p : Nat} (hkp : k ≤ p) (hpe : p < e)
    (hp : cols[p]! = target) (hbefore : ∀ q, k ≤ q → q < p → cols[q]! ≠ target) :
    seekColumn cols target k e = some p := by
  fun_induction seekColumn cols target k e with
  | case1 k hk hfound =>
    rcases Nat.lt_or_ge k p with h | h
    · exact absurd hfound (hbefore k (Nat.le_refl k) h)
    · rw [Nat.le_antisymm hkp h]
  | case2 k hk hnot ih =>
    have hkp' : k ≠ p := fun h => hnot (h ▸ hp)
    exact ih (by omega) fun q hq hqp => hbefore q (by omega) hqp
  | case3 k hk => omega

theorem getElem!_modify {α : Type} [Inhabited α] (v : Array α) (pos : Nat) (f : α → α) {q : Nat}
    (hq : q < v.size) : (v.modify pos f)[q]! = if pos = q then f v[q]! else v[q]! := by
  rw [getElem!_pos _ q (by simpa using hq), Array.getElem_modify, getElem!_pos v q hq]

section Row

variable {K : Type} [Field K] [LinearOrder K] {a : Csr (Exact K)} (cols : Array Nat)
  (tensor : Matrix (Exact K)) (lr : Nat) {r : Nat}

theorem addElementEntry_of_seek {e k pos lc : Nat} (v : Array (Exact K))
    (h : seekColumn a.pattern.colIndices cols[lc]! k e = some pos) :
    addElementEntry a cols tensor lr e (v, k) lc = .ok (v.modify pos (· + tensor.get lr lc), pos + 1) := by
  simp only [addElementEntry, h]

/-- The columns of an element row, visited in increasing global column: each goes to the offset
of its column in row `r`, and the search for the next one starts after it. -/
theorem addElementEntry_foldlM (hp : a.pattern.Valid) :
    ∀ (perm : List Nat) (v : Array (Exact K)) (k : Nat), a.pattern.offset r ≤ k →
      (perm.map fun lc => cols[lc]!).Pairwise (· < ·) →
      (∀ lc ∈ perm, a.pattern.Stores r cols[lc]!) →
      (∀ lc ∈ perm, ∀ q, a.pattern.offset r ≤ q → q < k → a.pattern.colIndices[q]! < cols[lc]!) →
      ∃ v' k', perm.foldlM (addElementEntry a cols tensor lr (a.pattern.offset (r + 1))) (v, k) =
        .ok (v', k') ∧ v'.size = v.size ∧
        ∀ q < v.size, (v'[q]!).val = (v[q]!).val + (perm.map fun lc =>
          if a.pattern.offset r ≤ q ∧ q < a.pattern.offset (r + 1) ∧
            a.pattern.colIndices[q]! = cols[lc]! then (tensor.get lr lc).val else 0).sum
  | [], v, k, _, _, _, _ => ⟨v, k, rfl, rfl, fun q _ => by simp⟩
  | lc :: perm, v, k, hk, hsorted, hstored, hbelow => by
    have hr : r < a.pattern.nrows := (hstored lc List.mem_cons_self).1
    obtain ⟨hlt, hsorted⟩ := List.pairwise_cons.1 (List.map_cons ▸ hsorted)
    -- the column of `lc` is stored in row `r`, at an offset `p` not before `k`
    obtain ⟨p, hp₁, hp₂, hpc⟩ := (hp.mem_rowCols_iff hr).1 (hstored lc List.mem_cons_self).2
    have hkp : k ≤ p := Nat.le_of_not_lt fun hpk =>
      Nat.lt_irrefl _ (hpc ▸ hbelow lc List.mem_cons_self p hp₁ hpk)
    have hseek : seekColumn a.pattern.colIndices cols[lc]! k (a.pattern.offset (r + 1)) = some p :=
      seekColumn_eq_some hkp hp₂ hpc fun q hkq hqp =>
        Nat.ne_of_lt (hpc ▸ hp.col_lt_col hr (Nat.le_trans hk hkq) hqp hp₂)
    obtain ⟨v', k', hrun, hsize, hval⟩ := addElementEntry_foldlM hp perm
      (v.modify p (· + tensor.get lr lc)) (p + 1) (by omega) hsorted
      (fun lc' h => hstored lc' (List.mem_cons_of_mem lc h))
      (fun lc' h q hq hqp => by
        have hcol : a.pattern.colIndices[q]! ≤ a.pattern.colIndices[p]! := by
          rcases Nat.lt_or_ge q p with hqp' | hqp'
          · exact Nat.le_of_lt (hp.col_lt_col hr hq hqp' hp₂)
          · rw [Nat.le_antisymm (Nat.le_of_lt_succ hqp) hqp']
        exact Nat.lt_of_le_of_lt (hpc ▸ hcol) (hlt _ (List.mem_map_of_mem h)))
    refine ⟨v', k', ?_, by rw [hsize, Array.size_modify], fun q hq => ?_⟩
    · rw [List.foldlM_cons, addElementEntry_of_seek cols tensor lr v hseek]
      exact hrun
    · rw [hval q (by simpa using hq), getElem!_modify v p _ hq, List.map_cons, List.sum_cons]
      -- the term of `lc` is at offset `p` only, since a row lists each column once
      have hterm : (if a.pattern.offset r ≤ q ∧ q < a.pattern.offset (r + 1) ∧
          a.pattern.colIndices[q]! = cols[lc]! then (tensor.get lr lc).val else 0) =
          if p = q then (tensor.get lr lc).val else 0 := by
        by_cases hpq : p = q
        · subst hpq
          rw [if_pos ⟨hp₁, hp₂, hpc⟩, if_pos rfl]
        · rw [if_neg hpq, if_neg fun h => hpq (hp.col_injective hr hp₁ hp₂ h.1 h.2.1
            (hpc.trans h.2.2.symm))]
      rw [hterm]
      by_cases hpq : p = q
      · rw [if_pos hpq, if_pos hpq, Exact.val_add, add_assoc]
      · rw [if_neg hpq, if_neg hpq, zero_add]

theorem addElementRow_eq_ok (hp : a.pattern.Valid) (perm : List Nat) (v : Array (Exact K))
    (hsorted : (perm.map fun lc => cols[lc]!).Pairwise (· < ·))
    (hstored : ∀ lc ∈ perm, a.pattern.Stores r cols[lc]!) :
    ∃ v', addElementRow a cols perm tensor v lr r = .ok v' ∧ v'.size = v.size ∧
      ∀ q < v.size, (v'[q]!).val = (v[q]!).val + (perm.map fun lc =>
        if a.pattern.offset r ≤ q ∧ q < a.pattern.offset (r + 1) ∧
          a.pattern.colIndices[q]! = cols[lc]! then (tensor.get lr lc).val else 0).sum := by
  obtain ⟨v', k', hrun, hsize, hval⟩ := addElementEntry_foldlM cols tensor lr hp perm v _
    (Nat.le_refl _) hsorted hstored fun _ _ q hq hqk => absurd hqk (Nat.not_lt.2 hq)
  refine ⟨v', ?_, hsize, hval⟩
  simp only [addElementRow, rowRange_eq, hrun, bind, Except.bind, pure, Except.pure]

end Row

section Element

variable {K : Type} [Field K] [LinearOrder K] {a : Csr (Exact K)}

theorem sum_map_range {M : Type} [AddCommMonoid M] (f : Nat → M) :
    ∀ n, ((List.range n).map f).sum = ∑ i ∈ Finset.range n, f i
  | 0 => rfl
  | n + 1 => by
    rw [List.range_succ, List.map_append, List.sum_append, sum_map_range f n, Finset.sum_range_succ,
      List.map_singleton, List.sum_singleton]

/-- Distinct dofs sorted by the merge sort of `addElement` come in strictly increasing order. -/
theorem pairwise_mergeSort_cols {cols : Array Nat} (hnodup : cols.toList.Nodup) :
    (((List.range cols.size).mergeSort fun i j => decide (cols[i]! ≤ cols[j]!)).map
      fun lc => cols[lc]!).Pairwise (· < ·) := by
  have hle := @List.pairwise_mergeSort _ (fun i j => decide (cols[i]! ≤ cols[j]!))
    (fun i j l hij hjl => by simp only [decide_eq_true_eq] at hij hjl ⊢; omega)
    (fun i j => by simp only [Bool.or_eq_true, decide_eq_true_eq]; omega) (List.range cols.size)
  have hnd : ((List.range cols.size).mergeSort fun i j => decide (cols[i]! ≤ cols[j]!)).Nodup :=
    (List.mergeSort_perm _ _).nodup_iff.2 List.nodup_range
  rw [List.pairwise_map]
  refine (hle.and hnd).imp_of_mem fun {i j} hi hj hij => ?_
  have hi' : i < cols.size := List.mem_range.1 (List.mem_mergeSort.1 hi)
  have hj' : j < cols.size := List.mem_range.1 (List.mem_mergeSort.1 hj)
  -- distinct positions of a list without repeats hold distinct dofs
  have hne : cols[i]! ≠ cols[j]! := fun h => hij.2 <| by
    rw [getElem!_pos cols i hi', getElem!_pos cols j hj', ← Array.getElem_toList,
      ← Array.getElem_toList] at h
    exact (hnodup.getElem_inj_iff).1 h
  have hle' := hij.1
  simp only [decide_eq_true_eq] at hle'
  omega

theorem addElement_eq_ok (hp : a.pattern.Valid) {test trial : FunctionSpace} {c : Nat}
    {rows cols : Array Nat} (hrows : test.cellDofs c test.localDim = .ok rows)
    (hcols : trial.cellDofs c trial.localDim = .ok cols) (hnodup : cols.toList.Nodup)
    (hstored : ∀ i < rows.size, ∀ j < cols.size, a.pattern.Stores rows[i]! cols[j]!)
    (T : Matrix (Exact K)) (v : Array (Exact K)) :
    ∃ v', addElement a test trial v (c, T) = .ok v' ∧ v'.size = v.size ∧
      ∀ q < v.size, (v'[q]!).val = (v[q]!).val + ∑ i ∈ Finset.range rows.size,
        ∑ j ∈ Finset.range cols.size, if a.pattern.offset rows[i]! ≤ q ∧
          q < a.pattern.offset (rows[i]! + 1) ∧ a.pattern.colIndices[q]! = cols[j]!
        then (T.get i j).val else 0 := by
  have hsorted := pairwise_mergeSort_cols hnodup
  have hperm := List.mergeSort_perm (List.range cols.size) fun i j => decide (cols[i]! ≤ cols[j]!)
  simp only [addElement, hrows, hcols, bind, Except.bind]
  -- the rows of the element one after another, each adding its terms
  refine foldlM_range_invariant (N := rows.size) (P := fun J (w : Array (Exact K)) => w.size = v.size ∧
      ∀ q < v.size, (w[q]!).val = (v[q]!).val + ∑ i ∈ Finset.range J,
        ∑ j ∈ Finset.range cols.size, if a.pattern.offset rows[i]! ≤ q ∧
          q < a.pattern.offset (rows[i]! + 1) ∧ a.pattern.colIndices[q]! = cols[j]!
        then (T.get i j).val else 0)
    (fun w J hJ ⟨hw, hwv⟩ => ?_) ⟨rfl, fun q _ => by simp⟩ rows.size (Nat.le_refl _)
  obtain ⟨w', hw', hsize, hval⟩ := addElementRow_eq_ok cols T J hp _ w hsorted
    fun lc hlc => hstored J hJ lc (List.mem_range.1 (hperm.mem_iff.1 hlc))
  refine ⟨w', hw', hsize.trans hw, fun q hq => ?_⟩
  rw [hval q (hw ▸ hq), hwv q hq, Finset.sum_range_succ, add_assoc, (hperm.map _).sum_eq,
    sum_map_range]

end Element

end MixedFem
