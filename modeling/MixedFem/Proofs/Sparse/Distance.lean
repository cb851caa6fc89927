import Mathlib.Analysis.Real.Sqrt
import Mathlib.Algebra.Order.BigOperators.Group.Finset
import MixedFem.Proofs.Sparse.Operator

/-!
# The Frobenius distance of two sparse matrices

`Csr.frobeniusDistance` merges each row of `A` with the same row of `B` by column, the way two
sorted lists are merged, and sums the squares of what the merge gives. Main statement: read over
the reals, its square is the sum over all positions of `(A_ij - B_ij)²`, an entry that is not
stored counting as zero (`frobeniusDistance_exact`).

* `Csr.rowEntry cs vs c` : the value a row lists at column `c`, zero where it lists none;
  `Csr.entry a r c` : the entry of a matrix, zero where nothing is stored, with
  `rowEntry_rowCols` (the entry is the one its row lists);
* `rowDifferences_cons_cons`, `rowDifferences_nil_cons`, `rowDifferences_cons_nil`,
  `rowDifferences_nil_nil` : one step of the merge;
* `rowDifferences_nil_right` : against an empty row the merge gives the row's own values;
* `rowDifferences_eq_map` : on strictly increasing rows the merge visits each column of either
  row once, in increasing order, and gives there the difference of the rows; hence
  `length_rowDifferences` (one step per column of the union) and `val_foldl_rowDifferences`;
* `differenceSum a b` : the sum the merge forms; `val_differenceSum` : it is the sum of the
  squared differences of the entries over the shape;
* `frobeniusDistance_of_nnz_eq_zero` : against a matrix that stores nothing the distance is the
  Frobenius norm, in any arithmetic, since the merge then gives the stored values in order.
-/

namespace MixedFem

@[simp] theorem Exact.val_sqrt {K : Type} [Field K] [LinearOrder K] (x : Exact K) :
    (RealScalar.sqrt x).val = Exact.sqrt x.val := rfl

/-- Where a value has a square root, `Exact.sqrt` is one, and it is not negative. -/
theorem Exact.sqrt_spec {K : Type} [Field K] [LinearOrder K] {x : K}
    (h : ∃ y, 0 ≤ y ∧ y * y = x) : 0 ≤ Exact.sqrt x ∧ Exact.sqrt x * Exact.sqrt x = x := by
  rw [Exact.sqrt, dif_pos h]
  exact Classical.choose_spec h

/-- Every nonnegative real has its square root. -/
theorem Exact.sqrt_spec_real {x : ℝ} (hx : 0 ≤ x) :
    0 ≤ Exact.sqrt x ∧ Exact.sqrt x * Exact.sqrt x = x :=
  Exact.sqrt_spec ⟨Real.sqrt x, Real.sqrt_nonneg x, Real.mul_self_sqrt hx⟩

namespace SparsityPattern

/-- The positions of the first `n` rows are those below offset `n`. -/
theorem Valid.flatMap_positions {p : SparsityPattern} (hp : p.Valid) :
    ∀ n ≤ p.nrows, (List.range n).flatMap p.positions = List.range' 0 (p.offset n)
  | 0, _ => by simp [hp.offset_zero]
  | n + 1, hn => by
    have hle := hp.offset_le_succ n (by omega)
    have happ := @List.range'_append_1 0 (p.offset n) (p.offset (n + 1) - p.offset n)
    rw [Nat.zero_add, Nat.add_sub_cancel' hle] at happ
    rw [List.range_succ, List.flatMap_append, Valid.flatMap_positions hp n (by omega),
      List.flatMap_singleton, positions, happ]

end SparsityPattern

namespace Csr

section Rows

variable {ρ : Type} [Scalar ρ]

/-- The value a row lists at column `c` (the first, if it lists `c` twice), zero where it lists
none. -/
def rowEntry (cs : List Nat) (vs : List ρ) (c : Nat) : ρ :=
  (((cs.zip vs).find? (·.1 == c)).map (·.2)).getD Scalar.zero

@[simp] theorem rowEntry_nil (vs : List ρ) (c : Nat) : rowEntry [] vs c = Scalar.zero := rfl

theorem rowEntry_cons (c' : Nat) (cs : List Nat) (v : ρ) (vs : List ρ) (c : Nat) :
    rowEntry (c' :: cs) (v :: vs) c = if c' = c then v else rowEntry cs vs c := by
  by_cases h : c' = c <;> simp [rowEntry, h]

@[simp] theorem rowEntry_cons_self (c : Nat) (cs : List Nat) (v : ρ) (vs : List ρ) :
    rowEntry (c :: cs) (v :: vs) c = v := by
  rw [rowEntry_cons, if_pos rfl]

theorem rowEntry_cons_of_lt {c' c : Nat} (h : c' < c) (cs : List Nat) (v : ρ) (vs : List ρ) :
    rowEntry (c' :: cs) (v :: vs) c = rowEntry cs vs c := by
  rw [rowEntry_cons, if_neg (Nat.ne_of_lt h)]

theorem rowEntry_of_not_mem {cs : List Nat} {c : Nat} (h : c ∉ cs) (vs : List ρ) :
    rowEntry cs vs c = Scalar.zero := by
  induction cs generalizing vs with
  | nil => rfl
  | cons c' cs ih =>
    cases vs with
    | nil => rfl
    | cons v vs =>
      have hc' : c' ≠ c := fun h' => h (by rw [h']; exact List.mem_cons_self)
      rw [rowEntry_cons, if_neg hc', ih (fun h' => h (List.mem_cons_of_mem _ h'))]

/-- A row read off a list of positions: the entry at `c` is the value of the first position whose
column is `c`. -/
theorem rowEntry_map {ι : Type} (l : List ι) (f : ι → Nat) (g : ι → ρ) (c : Nat) :
    rowEntry (l.map f) (l.map g) c = ((l.find? fun k => f k == c).map g).getD Scalar.zero := by
  induction l with
  | nil => rfl
  | cons k l ih => by_cases h : f k = c <;> simp [rowEntry_cons, h, ih]

end Rows

section Merge

variable {ρ : Type} [RealScalar ρ]

theorem rowDifferences_cons_cons (i j : Nat) (ca cb : List Nat) (x y : ρ) (va vb : List ρ) :
    rowDifferences (i :: ca) (x :: va) (j :: cb) (y :: vb) =
      if i = j then (x - y) :: rowDifferences ca va cb vb
      else if i < j then x :: rowDifferences ca va (j :: cb) (y :: vb)
      else -y :: rowDifferences (i :: ca) (x :: va) cb vb := by
  rw [rowDifferences]

theorem rowDifferences_nil_cons (j : Nat) (cb : List Nat) (y : ρ) (vb : List ρ) :
    rowDifferences [] [] (j :: cb) (y :: vb) = -y :: rowDifferences [] [] cb vb := by
  rw [rowDifferences]; simp

theorem rowDifferences_cons_nil (i : Nat) (ca : List Nat) (x : ρ) (va : List ρ) :
    rowDifferences (i :: ca) (x :: va) [] [] = x :: rowDifferences ca va [] [] := by
  rw [rowDifferences]; simp

theorem rowDifferences_nil_nil : rowDifferences ([] : List Nat) ([] : List ρ) [] [] = [] := by
  rw [rowDifferences] <;> simp

/-- Against an empty row the merge gives the values of the other row, in order. -/
theorem rowDifferences_nil_right {ca : List Nat} {va : List ρ} (h : va.length = ca.length) :
    rowDifferences ca va [] [] = va := by
  induction ca generalizing va with
  | nil => rw [List.eq_nil_of_length_eq_zero h, rowDifferences_nil_nil]
  | cons i ca ih =>
    obtain ⟨x, va, rfl⟩ := List.exists_cons_of_length_eq_add_one h
    rw [rowDifferences_cons_nil, ih (Nat.succ.inj h)]

end Merge

/-- Values and columns of one length that are not both of the form `_ :: _` are both empty. -/
theorem nil_of_not_cons {α : Type} {cs : List Nat} {vs : List α} (hlen : vs.length = cs.length)
    (h : ∀ i cs' x vs', cs = i :: cs' → vs = x :: vs' → False) : cs = [] ∧ vs = [] := by
  cases cs with
  | nil => exact ⟨rfl, List.eq_nil_of_length_eq_zero hlen⟩
  | cons i cs' =>
    obtain ⟨x, vs', rfl⟩ := List.exists_cons_of_length_eq_add_one hlen
    exact (h i cs' x vs' rfl rfl).elim

section Exact

variable {K : Type} [Field K] [LinearOrder K]

/-- Merging two strictly increasing rows visits every column of either row once, in increasing
order, and gives at each the difference of the two rows there. -/
theorem rowDifferences_eq_map {ca cb : List Nat} {va vb : List (Exact K)}
    (hca : ca.Pairwise (· < ·)) (hcb : cb.Pairwise (· < ·)) (hva : va.length = ca.length)
    (hvb : vb.length = cb.length) :
    ∃ cols : List Nat, cols.Pairwise (· < ·) ∧ (∀ c, c ∈ cols ↔ c ∈ ca ∨ c ∈ cb) ∧
      rowDifferences ca va cb vb = cols.map fun c => rowEntry ca va c - rowEntry cb vb c := by
  induction ca, va, cb, vb using rowDifferences.induct with
  | case1 ca x va j cb y vb ih =>
    -- both rows list `j`: the merge takes both heads
    obtain ⟨hj, hca⟩ := List.pairwise_cons.1 hca
    obtain ⟨hj', hcb⟩ := List.pairwise_cons.1 hcb
    obtain ⟨cols, hsorted, hmem, heq⟩ := ih hca hcb (Nat.succ.inj hva) (Nat.succ.inj hvb)
    have hlt : ∀ c ∈ cols, j < c := fun c hc => ((hmem c).1 hc).elim (hj c) (hj' c)
    refine ⟨j :: cols, List.pairwise_cons.2 ⟨hlt, hsorted⟩, fun c => by simp [hmem]; tauto, ?_⟩
    rw [rowDifferences_cons_cons, if_pos rfl, heq, List.map_cons, rowEntry_cons_self,
      rowEntry_cons_self]
    exact congrArg _ (List.map_congr_left fun c hc => by
      rw [rowEntry_cons_of_lt (hlt c hc), rowEntry_cons_of_lt (hlt c hc)])
  | case2 i ca x va j cb y vb hne hij ih =>
    -- only the first row lists `i`, the least column left
    obtain ⟨hi, hca⟩ := List.pairwise_cons.1 hca
    obtain ⟨hj, -⟩ := List.pairwise_cons.1 hcb
    obtain ⟨cols, hsorted, hmem, heq⟩ := ih hca hcb (Nat.succ.inj hva) hvb
    have hlt : ∀ c ∈ cols, i < c := fun c hc => ((hmem c).1 hc).elim (hi c) fun h => by
      rcases List.mem_cons.1 h with rfl | h
      · exact hij
      · exact Nat.lt_trans hij (hj c h)
    have hout : i ∉ j :: cb := fun h => by
      rcases List.mem_cons.1 h with rfl | h
      · exact hne rfl
      · exact Nat.lt_asymm hij (hj i h)
    refine ⟨i :: cols, List.pairwise_cons.2 ⟨hlt, hsorted⟩, fun c => by simp [hmem]; tauto, ?_⟩
    rw [rowDifferences_cons_cons, if_neg hne, if_pos hij, heq, List.map_cons, rowEntry_cons_self,
      rowEntry_of_not_mem hout]
    refine congrArg₂ _ (Exact.ext (by simp)) (List.map_congr_left fun c hc => ?_)
    rw [rowEntry_cons_of_lt (hlt c hc)]
  | case3 i ca x va j cb y vb hne hij ih =>
    -- only the second row lists `j`, the least column left
    obtain ⟨hi, -⟩ := List.pairwise_cons.1 hca
    obtain ⟨hj, hcb⟩ := List.pairwise_cons.1 hcb
    have hji : j < i := Nat.lt_of_le_of_ne (Nat.le_of_not_lt hij) (Ne.symm hne)
    obtain ⟨cols, hsorted, hmem, heq⟩ := ih hca hcb hva (Nat.succ.inj hvb)
    have hlt : ∀ c ∈ cols, j < c := fun c hc => ((hmem c).1 hc).elim (fun h => by
      rcases List.mem_cons.1 h with rfl | h
      · exact hji
      · exact Nat.lt_trans hji (hi c h)) (hj c)
    have hout : j ∉ i :: ca := fun h => by
      rcases List.mem_cons.1 h with rfl | h
      · exact hne rfl
      · exact Nat.lt_asymm hji (hi j h)
    refine ⟨j :: cols, List.pairwise_cons.2 ⟨hlt, hsorted⟩, fun c => by simp [hmem]; tauto, ?_⟩
    rw [rowDifferences_cons_cons, if_neg hne, if_neg hij, heq, List.map_cons, rowEntry_cons_self,
      rowEntry_of_not_mem hout]
    refine congrArg₂ _ (Exact.ext (by simp)) (List.map_congr_left fun c hc => ?_)
    rw [rowEntry_cons_of_lt (hlt c hc)]
  | case4 ca va j cb y vb hnot ih =>
    -- the first row is used up
    obtain ⟨rfl, rfl⟩ := nil_of_not_cons hva hnot
    obtain ⟨hj, hcb⟩ := List.pairwise_cons.1 hcb
    obtain ⟨cols, hsorted, hmem, heq⟩ := ih List.Pairwise.nil hcb rfl (Nat.succ.inj hvb)
    have hlt : ∀ c ∈ cols, j < c := fun c hc => ((hmem c).1 hc).elim (by simp) (hj c)
    refine ⟨j :: cols, List.pairwise_cons.2 ⟨hlt, hsorted⟩, fun c => by simp [hmem], ?_⟩
    rw [rowDifferences_nil_cons, heq, List.map_cons, rowEntry_cons_self]
    refine congrArg₂ _ (Exact.ext (by simp)) (List.map_congr_left fun c hc => ?_)
    rw [rowEntry_cons_of_lt (hlt c hc)]
  | case5 cb vb i ca x va hnot ih =>
    -- the second row is used up
    obtain ⟨rfl, rfl⟩ := nil_of_not_cons hvb hnot
    obtain ⟨hi, hca⟩ := List.pairwise_cons.1 hca
    obtain ⟨cols, hsorted, hmem, heq⟩ := ih hca List.Pairwise.nil (Nat.succ.inj hva) rfl
    have hlt : ∀ c ∈ cols, i < c := fun c hc => ((hmem c).1 hc).elim (hi c) (by simp)
    refine ⟨i :: cols, List.pairwise_cons.2 ⟨hlt, hsorted⟩, fun c => by simp [hmem], ?_⟩
    rw [rowDifferences_cons_nil, heq, List.map_cons, rowEntry_cons_self]
    refine congrArg₂ _ (Exact.ext (by simp)) (List.map_congr_left fun c hc => ?_)
    rw [rowEntry_cons_of_lt (hlt c hc)]
  | case6 ca va cb vb hnota hnotb _ =>
    obtain ⟨rfl, rfl⟩ := nil_of_not_cons hva hnota
    obtain ⟨rfl, rfl⟩ := nil_of_not_cons hvb hnotb
    exact ⟨[], List.Pairwise.nil, by simp, rowDifferences_nil_nil⟩

variable {ca cb : List Nat} {va vb : List (Exact K)}

/-- The merge makes one step for each column listed in either row. -/
theorem length_rowDifferences (hca : ca.Pairwise (· < ·)) (hcb : cb.Pairwise (· < ·))
    (hva : va.length = ca.length) (hvb : vb.length = cb.length) :
    (rowDifferences ca va cb vb).length = (ca.toFinset ∪ cb.toFinset).card := by
  obtain ⟨cols, hsorted, hmem, heq⟩ := rowDifferences_eq_map hca hcb hva hvb
  have hcols : cols.toFinset = ca.toFinset ∪ cb.toFinset := by
    ext c
    simp [hmem]
  rw [heq, List.length_map, ← hcols, List.toFinset_card_of_nodup (hsorted.imp Nat.ne_of_lt)]

/-- The squares the merge adds to a running sum: the squared differences of the two rows over the
columns of either. -/
theorem val_foldl_rowDifferences (hca : ca.Pairwise (· < ·)) (hcb : cb.Pairwise (· < ·))
    (hva : va.length = ca.length) (hvb : vb.length = cb.length) (s : Exact K) :
    ((rowDifferences ca va cb vb).foldl (fun s d => s + d * d) s).val =
      s.val + ∑ c ∈ ca.toFinset ∪ cb.toFinset,
        ((rowEntry ca va c).val - (rowEntry cb vb c).val) ^ 2 := by
  obtain ⟨cols, hsorted, hmem, heq⟩ := rowDifferences_eq_map hca hcb hva hvb
  have hcols : cols.toFinset = ca.toFinset ∪ cb.toFinset := by
    ext c
    simp [hmem]
  rw [heq, Exact.val_foldl_add (fun d => d * d), ← hcols,
    List.sum_toFinset _ (hsorted.imp Nat.ne_of_lt), List.map_map]
  simp [Function.comp_def, sq]

end Exact

section Entries

variable {ρ : Type} {a : Csr ρ} {r : Nat}

/-- The entry of a matrix at `(r, c)`: the stored value, zero where nothing is stored. -/
def entry [Scalar ρ] (a : Csr ρ) (r c : Nat) : ρ := (a.get? r c).getD Scalar.zero

/-- The positions `s, …, e - 1` of an array ending by `e ≤ size`. -/
theorem toList_extract_eq_map {α : Type} [Inhabited α] (xs : Array α) {s e : Nat}
    (he : e ≤ xs.size) : (xs.extract s e).toList = (List.range' s (e - s)).map fun k => xs[k]! := by
  apply List.ext_getElem
  · simp only [Array.length_toList, Array.size_extract, List.length_map, List.length_range']
    omega
  · intro j hj _
    have hb : s + j < xs.size := by
      simp only [Array.length_toList, Array.size_extract] at hj
      omega
    simp only [Array.getElem_toList, Array.getElem_extract, List.getElem_map, List.getElem_range',
      Nat.one_mul]
    exact (getElem!_pos xs _ hb).symm

theorem toList_rowValues [Scalar ρ] (ha : a.Valid) (hr : r < a.nrows) :
    (a.rowValues r).toList = (a.pattern.positions r).map fun k => a.values[k]! := by
  rw [rowValues, SparsityPattern.rowRange_eq, toList_extract_eq_map]
  · rfl
  · rw [ha.2]
    exact ha.1.offset_le_nnz hr

theorem toList_rowCols (ha : a.Valid) (hr : r < a.nrows) :
    (a.pattern.rowCols r).toList = (a.pattern.positions r).map fun k => a.pattern.colIndices[k]! :=
  ha.1.toList_rowCols hr

/-- A row lists one value per column, every row past the last listing none. -/
theorem size_rowValues (ha : a.Valid) (i : Nat) : (a.rowValues i).size = (a.pattern.rowCols i).size := by
  simp only [rowValues, SparsityPattern.rowCols, Array.size_extract, ha.2]
  rfl

/-- The entry of a row of a matrix is the one the row lists. -/
theorem rowEntry_rowCols [Scalar ρ] (ha : a.Valid) (hr : r < a.nrows) (c : Nat) :
    rowEntry (a.pattern.rowCols r).toList (a.rowValues r).toList c = a.entry r c := by
  rw [toList_rowCols ha hr, toList_rowValues ha hr, rowEntry_map]
  rfl

/-- Outside the stored positions the entry is zero; in particular outside the shape. -/
theorem entry_of_not_stores [Scalar ρ] (ha : a.Valid) {c : Nat} (h : ¬ a.pattern.Stores r c) :
    a.entry r c = Scalar.zero := by
  rw [entry, get?_eq_none ha.1 h]
  rfl

theorem Valid.stores_lt (ha : a.Valid) {c : Nat} (h : a.pattern.Stores r c) :
    r < a.nrows ∧ c < a.ncols :=
  ⟨h.1, ha.1.col_lt r h.1 c h.2⟩

end Entries

section Sum

variable {ρ : Type} [RealScalar ρ]

/-- The sum of the squared differences that the merge forms, row after row. -/
def differenceSum (a b : Csr ρ) : ρ :=
  (List.range a.nrows).foldl (fun s i =>
    (rowDifferences (a.pattern.rowCols i).toList (a.rowValues i).toList
      (b.pattern.rowCols i).toList (b.rowValues i).toList).foldl (fun s d => s + d * d) s)
    Scalar.zero

theorem frobeniusDistance_eq {a b : Csr ρ} (hrows : a.nrows = b.nrows) (hcols : a.ncols = b.ncols) :
    a.frobeniusDistance b = .ok (RealScalar.sqrt (differenceSum a b)) := by
  simp only [frobeniusDistance, Violation.requireEq, if_pos hrows, if_pos hcols]
  rfl

/-- The rows of a matrix list its stored values in order, one after the other. -/
theorem flatMap_rowValues {a : Csr ρ} (ha : a.Valid) :
    (List.range a.nrows).flatMap (fun r => (a.rowValues r).toList) = a.values.toList := by
  have hend : a.pattern.offset a.nrows = a.nnz := ha.1.offset_nrows
  rw [List.flatMap_congr fun r hr => toList_rowValues ha (List.mem_range.1 hr), ← List.map_flatMap,
    ha.1.flatMap_positions a.nrows (Nat.le_refl _), hend, ← ha.2]
  have hall := toList_extract_eq_map a.values (s := 0) (Nat.le_refl _)
  rw [Nat.sub_zero, Array.extract_eq_self_of_le (Nat.le_refl _)] at hall
  exact hall.symm

/-- Against a matrix that stores nothing, the merge gives the stored values of the other matrix,
row after row, so the distance is its Frobenius norm, summed in the same order. -/
theorem frobeniusDistance_of_nnz_eq_zero {a b : Csr ρ} (ha : a.Valid) (hb : b.Valid)
    (hrows : a.nrows = b.nrows) (hcols : a.ncols = b.ncols) (hnnz : b.nnz = 0) :
    a.frobeniusDistance b = .ok a.frobeniusNorm := by
  have hcolsb : b.pattern.colIndices = #[] := Array.eq_empty_of_size_eq_zero hnnz
  have hvalsb : b.values = #[] := Array.eq_empty_of_size_eq_zero (hb.2.trans hnnz)
  have hrow : ∀ i, rowDifferences (a.pattern.rowCols i).toList (a.rowValues i).toList
      (b.pattern.rowCols i).toList (b.rowValues i).toList = (a.rowValues i).toList := fun i => by
    have hc : b.pattern.rowCols i = #[] := by
      simp only [SparsityPattern.rowCols, hcolsb, Array.extract_empty]
    have hv : b.rowValues i = #[] := by simp only [rowValues, hvalsb, Array.extract_empty]
    rw [hc, hv]
    exact rowDifferences_nil_right (by
      rw [Array.length_toList, Array.length_toList, size_rowValues ha])
  rw [frobeniusDistance_eq hrows hcols, frobeniusNorm, differenceSum]
  simp only [hrow]
  rw [← List.foldl_flatMap, flatMap_rowValues ha, Array.foldl_toList]

end Sum

section ExactSum

variable {K : Type} [Field K] [LinearOrder K] {a b : Csr (Exact K)}

/-- The squared differences of a row of two matrices sum alike over the columns either lists and
over all columns of the shape: the others are empty in both. -/
theorem rowSum_eq (ha : a.Valid) (hb : b.Valid) (hcols : a.ncols = b.ncols) {r : Nat}
    (hra : r < a.nrows) (hrb : r < b.nrows) :
    ∑ c ∈ (a.pattern.rowCols r).toList.toFinset ∪ (b.pattern.rowCols r).toList.toFinset,
        ((rowEntry (a.pattern.rowCols r).toList (a.rowValues r).toList c).val -
          (rowEntry (b.pattern.rowCols r).toList (b.rowValues r).toList c).val) ^ 2 =
      ∑ c ∈ Finset.range a.ncols, ((a.entry r c).val - (b.entry r c).val) ^ 2 := by
  have hsub : (a.pattern.rowCols r).toList.toFinset ∪ (b.pattern.rowCols r).toList.toFinset ⊆
      Finset.range a.ncols := by
    intro c hc
    rw [Finset.mem_union, List.mem_toFinset, List.mem_toFinset] at hc
    rw [Finset.mem_range]
    rcases hc with hc | hc
    · exact (ha.stores_lt ⟨hra, hc⟩).2
    · exact hcols ▸ (hb.stores_lt ⟨hrb, hc⟩).2
  rw [Finset.sum_subset hsub fun c _ hc => by
    rw [Finset.mem_union, List.mem_toFinset, List.mem_toFinset, not_or] at hc
    rw [rowEntry_of_not_mem hc.1, rowEntry_of_not_mem hc.2]
    simp]
  exact Finset.sum_congr rfl fun c _ => by rw [rowEntry_rowCols ha hra, rowEntry_rowCols hb hrb]

/-- The sum the merge forms is the sum of the squared differences of the entries over the shape. -/
theorem val_differenceSum (ha : a.Valid) (hb : b.Valid) (hrows : a.nrows = b.nrows)
    (hcols : a.ncols = b.ncols) :
    (differenceSum a b).val =
      ∑ r ∈ Finset.range a.nrows, ∑ c ∈ Finset.range a.ncols, ((a.entry r c).val - (b.entry r c).val) ^ 2 := by
  have hstep : ∀ s, ∀ r ∈ List.range a.nrows,
      ((rowDifferences (a.pattern.rowCols r).toList (a.rowValues r).toList
        (b.pattern.rowCols r).toList (b.rowValues r).toList).foldl (fun s d => s + d * d) s).val =
        s.val + ∑ c ∈ Finset.range a.ncols, ((a.entry r c).val - (b.entry r c).val) ^ 2 := by
    intro s r hr
    have hra : r < a.nrows := List.mem_range.1 hr
    have hrb : r < b.nrows := hrows ▸ hra
    rw [val_foldl_rowDifferences (ha.1.sorted r hra) (hb.1.sorted r hrb)
      (by rw [Array.length_toList, Array.length_toList, size_rowValues ha])
      (by rw [Array.length_toList, Array.length_toList, size_rowValues hb]),
      rowSum_eq ha hb hcols hra hrb]
  rw [differenceSum, Exact.val_foldl_step _ _ _ hstep, Exact.val_zero, zero_add]
  rfl

/-- Outside the shape both matrices read zero. -/
theorem entry_eq_zero_of_outside {a : Csr (Exact K)} (ha : a.Valid) {r c : Nat}
    (h : ¬ (r < a.nrows ∧ c < a.ncols)) : a.entry r c = Scalar.zero :=
  entry_of_not_stores ha fun hs => h (ha.stores_lt hs)

/-- A sum of squared differences over the shape vanishes exactly when the two matrices have the
same entries everywhere. -/
theorem sum_sq_eq_zero_iff [IsStrictOrderedRing K] (ha : a.Valid) (hb : b.Valid) (hrows : a.nrows = b.nrows)
    (hcols : a.ncols = b.ncols) :
    ∑ r ∈ Finset.range a.nrows, ∑ c ∈ Finset.range a.ncols,
        ((a.entry r c).val - (b.entry r c).val) ^ 2 = 0 ↔ ∀ r c, a.entry r c = b.entry r c := by
  rw [Finset.sum_eq_zero_iff_of_nonneg fun _ _ => Finset.sum_nonneg fun _ _ => sq_nonneg _]
  constructor
  · intro h r c
    by_cases hin : r < a.nrows ∧ c < a.ncols
    · have hrow := h r (Finset.mem_range.2 hin.1)
      rw [Finset.sum_eq_zero_iff_of_nonneg fun _ _ => sq_nonneg _] at hrow
      exact Exact.ext (sub_eq_zero.1 (pow_eq_zero_iff two_ne_zero |>.1 (hrow c (Finset.mem_range.2 hin.2))))
    · rw [entry_eq_zero_of_outside ha hin, entry_eq_zero_of_outside hb (hrows ▸ hcols ▸ hin)]
  · intro h r _
    exact Finset.sum_eq_zero fun c _ => by rw [h r c, sub_self, sq, mul_zero]

end ExactSum

section Real

variable {a b : Csr (Exact ℝ)}

/-- The Frobenius distance of two sparse matrices of one shape, in exact real arithmetic: its
square is the sum over all positions of the squared differences of the entries, an entry not
stored counting as zero. Hence it does not depend on the order of the two matrices, it is zero
exactly when they agree as dense matrices, and against a matrix that stores nothing it is the
Frobenius norm. The merge of row `i` makes one step per column listed in row `i` of either. -/
theorem frobeniusDistance_exact (ha : a.Valid) (hb : b.Valid) (hrows : a.nrows = b.nrows)
    (hcols : a.ncols = b.ncols) :
    ∃ d : Exact ℝ, a.frobeniusDistance b = .ok d ∧ b.frobeniusDistance a = .ok d ∧ 0 ≤ d.val ∧
      d.val ^ 2 = ∑ i ∈ Finset.range a.nrows, ∑ j ∈ Finset.range a.ncols,
        ((a.entry i j).val - (b.entry i j).val) ^ 2 ∧
      (d.val = 0 ↔ ∀ i j, a.entry i j = b.entry i j) ∧
      (b.nnz = 0 → d = a.frobeniusNorm) ∧
      ∀ i < a.nrows, (rowDifferences (a.pattern.rowCols i).toList (a.rowValues i).toList
          (b.pattern.rowCols i).toList (b.rowValues i).toList).length =
        ((a.pattern.rowCols i).toList.toFinset ∪ (b.pattern.rowCols i).toList.toFinset).card := by
  have hsum := val_differenceSum ha hb hrows hcols
  -- the sum does not depend on the order: each square is that of the opposite difference
  have hswap : differenceSum b a = differenceSum a b := by
    refine Exact.ext ?_
    rw [hsum, val_differenceSum hb ha hrows.symm hcols.symm, ← hrows, ← hcols]
    exact Finset.sum_congr rfl fun r _ => Finset.sum_congr rfl fun c _ => by ring
  have hnonneg : 0 ≤ (differenceSum a b).val := by
    rw [hsum]
    exact Finset.sum_nonneg fun _ _ => Finset.sum_nonneg fun _ _ => sq_nonneg _
  obtain ⟨hd0, hdd⟩ := Exact.sqrt_spec_real hnonneg
  have hdist := frobeniusDistance_eq hrows hcols
  refine ⟨_, hdist, ?_, by simpa using hd0, ?_, ?_, ?_, ?_⟩
  · rw [frobeniusDistance_eq hrows.symm hcols.symm, hswap]
  · rw [Exact.val_sqrt, sq, hdd, hsum]
  · rw [← sum_sq_eq_zero_iff ha hb hrows hcols, ← hsum, Exact.val_sqrt]
    constructor
    · intro h
      rw [← hdd, h, mul_zero]
    · intro h
      exact mul_self_eq_zero.1 (hdd.trans h)
  · intro hnnz
    have hnorm := frobeniusDistance_of_nnz_eq_zero ha hb hrows hcols hnnz
    rw [hdist] at hnorm
    exact Except.ok.inj hnorm
  · intro i hi
    have hib : i < b.nrows := hrows ▸ hi
    exact length_rowDifferences (ha.1.sorted i hi) (hb.1.sorted i hib)
      (by rw [Array.length_toList, Array.length_toList, size_rowValues ha])
      (by rw [Array.length_toList, Array.length_toList, size_rowValues hb])

/-- The Laplacian `tridiag(-1, 2, -1)` of order four. -/
noncomputable def laplacianFour : Csr (Exact ℝ) :=
  ⟨⟨4, 4, #[0, 2, 5, 8, 10], #[0, 1, 0, 1, 2, 1, 2, 3, 2, 3]⟩,
    #[RealScalar.ofNat 2, .mk (-1), .mk (-1), RealScalar.ofNat 2, .mk (-1), .mk (-1),
      RealScalar.ofNat 2, .mk (-1), .mk (-1), RealScalar.ofNat 2]⟩

/-- The `4 × 4` matrix storing `2` at `(0, 0)` and `5` at `(3, 0)`. -/
noncomputable def twoCorners : Csr (Exact ℝ) :=
  ⟨⟨4, 4, #[0, 1, 1, 1, 2], #[0, 0]⟩, #[RealScalar.ofNat 2, RealScalar.ofNat 5]⟩

theorem laplacianFour_valid : laplacianFour.Valid :=
  ⟨⟨by decide, by decide, by decide, by decide, by decide, by decide⟩, rfl⟩

theorem twoCorners_valid : twoCorners.Valid :=
  ⟨⟨by decide, by decide, by decide, by decide, by decide, by decide⟩, rfl⟩

/-- The distance of the Laplacian of order four to a matrix of another pattern. -/
theorem frobeniusDistance_exact_on_laplacian :
    laplacianFour.Valid ∧ twoCorners.Valid ∧ laplacianFour.nrows = twoCorners.nrows ∧
      laplacianFour.ncols = twoCorners.ncols ∧
      ∃ d : Exact ℝ, laplacianFour.frobeniusDistance twoCorners = .ok d ∧
        twoCorners.frobeniusDistance laplacianFour = .ok d ∧ 0 ≤ d.val ∧
        d.val ^ 2 = ∑ i ∈ Finset.range laplacianFour.nrows, ∑ j ∈ Finset.range laplacianFour.ncols,
          ((laplacianFour.entry i j).val - (twoCorners.entry i j).val) ^ 2 ∧
        (d.val = 0 ↔ ∀ i j, laplacianFour.entry i j = twoCorners.entry i j) ∧
        (twoCorners.nnz = 0 → d = laplacianFour.frobeniusNorm) ∧
        ∀ i < laplacianFour.nrows, (rowDifferences (laplacianFour.pattern.rowCols i).toList
            (laplacianFour.rowValues i).toList (twoCorners.pattern.rowCols i).toList
            (twoCorners.rowValues i).toList).length =
          ((laplacianFour.pattern.rowCols i).toList.toFinset ∪
            (twoCorners.pattern.rowCols i).toList.toFinset).card :=
  ⟨laplacianFour_valid, twoCorners_valid, rfl, rfl,
    frobeniusDistance_exact laplacianFour_valid twoCorners_valid rfl rfl⟩

end Real

end Csr

end MixedFem
