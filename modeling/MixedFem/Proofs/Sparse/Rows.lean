import MixedFem.Sparse.Csr

/-!
# Rows of a sparse matrix

A pattern lists the stored columns row after row; offset `i` is where row `i` starts in that list
and offset `i + 1` where it ends. The lemmas here read a pattern whose offsets and columns are
those of a matrix.

* `SparsityPattern.Valid p` : `nrows + 1` offsets from `0` to the number of stored columns, never
  decreasing, and each row lists columns below `ncols` in strictly increasing order;
  `Csr.Valid a` : moreover one value per stored column;
* `SparsityPattern.Stores p r c` : row `r` lists column `c`;
* `Csr.get? a r c` : the value stored at `(r, c)`, if it is stored;
* `Valid.col_lt_col` : along a row the columns increase; `Valid.mem_row_iff` : an offset lies in
  the range of one row only; `Csr.get?_offset` : the value at an offset is the entry of its row
  and its column;
* `SparsityPattern.positions p r` : the offsets of row `r`, with `Valid.mem_positions_iff` (an
  offset is a position of one row) and `Valid.stores_iff` (the stored columns of a row).
-/

namespace MixedFem

namespace SparsityPattern

/-- Offset `i`, `0` past the end. -/
def offset (p : SparsityPattern) (i : Nat) : Nat := p.rowOffsets.getD i 0

theorem rowRange_eq (p : SparsityPattern) (i : Nat) : p.rowRange i = (p.offset i, p.offset (i + 1)) :=
  rfl

/-- The offsets and columns of a pattern of a sparse matrix. -/
structure Valid (p : SparsityPattern) : Prop where
  size_offsets : p.rowOffsets.size = p.nrows + 1
  offset_zero : p.offset 0 = 0
  offset_nrows : p.offset p.nrows = p.nnz
  offset_le_succ : ∀ i < p.nrows, p.offset i ≤ p.offset (i + 1)
  sorted : ∀ i < p.nrows, (p.rowCols i).toList.Pairwise (· < ·)
  col_lt : ∀ i < p.nrows, ∀ c ∈ (p.rowCols i).toList, c < p.ncols

/-- Row `r` of the pattern lists column `c`. -/
def Stores (p : SparsityPattern) (r c : Nat) : Prop := r < p.nrows ∧ c ∈ (p.rowCols r).toList

variable {p : SparsityPattern}

namespace Valid

variable (hp : p.Valid)
include hp

theorem offset_mono {i j : Nat} (hij : i ≤ j) (hj : j ≤ p.nrows) : p.offset i ≤ p.offset j := by
  induction j with
  | zero => exact Nat.le_of_eq (by rw [Nat.le_zero.1 hij])
  | succ j ih =>
    rcases Nat.lt_or_eq_of_le hij with h | rfl
    · exact Nat.le_trans (ih (by omega) (by omega)) (hp.offset_le_succ j (by omega))
    · exact Nat.le_refl _

theorem offset_le_nnz {i : Nat} (hi : i ≤ p.nrows) : p.offset i ≤ p.nnz :=
  hp.offset_nrows ▸ hp.offset_mono hi (Nat.le_refl _)

/-- The offsets past the last row are `0`, so the rows from `nrows` on are empty. -/
theorem offset_succ_of_ge {r : Nat} (hr : p.nrows ≤ r) : p.offset (r + 1) = 0 := by
  have : p.rowOffsets.size ≤ r + 1 := by rw [hp.size_offsets]; omega
  simp [offset, Array.getD_eq_getD_getElem?, Array.getElem?_eq_none this]

theorem toList_rowCols {r : Nat} (hr : r < p.nrows) :
    (p.rowCols r).toList =
      (List.range' (p.offset r) (p.offset (r + 1) - p.offset r)).map (fun k => p.colIndices[k]!) := by
  have hle : p.offset r ≤ p.offset (r + 1) := hp.offset_le_succ r hr
  have hend : p.offset (r + 1) ≤ p.colIndices.size := hp.offset_le_nnz (by omega)
  apply List.ext_getElem
  · simp [rowCols, rowRange_eq]
    omega
  · intro j hj _
    have hb : p.offset r + j < p.colIndices.size := by
      simp [rowCols, rowRange_eq] at hj
      omega
    simp only [rowCols, rowRange_eq, Array.getElem_toList, Array.getElem_extract, List.getElem_map,
      List.getElem_range', Nat.one_mul]
    exact (getElem!_pos p.colIndices _ hb).symm

theorem mem_rowCols_iff {r c : Nat} (hr : r < p.nrows) :
    c ∈ (p.rowCols r).toList ↔
      ∃ k, p.offset r ≤ k ∧ k < p.offset (r + 1) ∧ p.colIndices[k]! = c := by
  have hle : p.offset r ≤ p.offset (r + 1) := hp.offset_le_succ r hr
  rw [hp.toList_rowCols hr, List.mem_map]
  simp only [List.mem_range'_1]
  constructor
  · rintro ⟨k, ⟨h₁, h₂⟩, hk⟩
    exact ⟨k, h₁, by omega, hk⟩
  · rintro ⟨k, h₁, h₂, hk⟩
    exact ⟨k, ⟨h₁, by omega⟩, hk⟩

theorem col_lt_col {r k k' : Nat} (hr : r < p.nrows) (hk : p.offset r ≤ k) (hkk' : k < k')
    (hk' : k' < p.offset (r + 1)) : p.colIndices[k]! < p.colIndices[k']! := by
  have hs := hp.sorted r hr
  rw [hp.toList_rowCols hr, List.pairwise_iff_getElem] at hs
  have := hs (k - p.offset r) (k' - p.offset r) (by simp; omega) (by simp; omega) (by omega)
  simpa [Nat.add_sub_cancel' hk, Nat.add_sub_cancel' (Nat.le_trans hk (Nat.le_of_lt hkk'))] using this

theorem col_injective {r k k' : Nat} (hr : r < p.nrows) (hk : p.offset r ≤ k)
    (hk₁ : k < p.offset (r + 1)) (hk' : p.offset r ≤ k') (hk'₁ : k' < p.offset (r + 1))
    (h : p.colIndices[k]! = p.colIndices[k']!) : k = k' := by
  rcases Nat.lt_trichotomy k k' with hlt | heq | hgt
  · exact absurd h (Nat.ne_of_lt (hp.col_lt_col hr hk hlt hk'₁))
  · exact heq
  · exact absurd h (Nat.ne_of_gt (hp.col_lt_col hr hk' hgt hk₁))

/-- An offset inside the range of row `r` is in the range of no other row. -/
theorem mem_row_iff {r q : Nat} (hr : r < p.nrows) (hq : p.offset r ≤ q ∧ q < p.offset (r + 1))
    (r' : Nat) : (p.offset r' ≤ q ∧ q < p.offset (r' + 1)) ↔ r' = r := by
  refine ⟨fun hq' => ?_, fun h => h ▸ hq⟩
  by_cases hr' : r' < p.nrows
  · rcases Nat.lt_trichotomy r' r with hlt | heq | hgt
    · have := hp.offset_mono (show r' + 1 ≤ r by omega) (Nat.le_of_lt hr)
      omega
    · exact heq
    · have := hp.offset_mono (show r + 1 ≤ r' by omega) (Nat.le_of_lt hr')
      omega
  · have := hp.offset_succ_of_ge (r := r') (by omega)
    omega

end Valid

/-- The offsets of the entries of row `r`. -/
def positions (p : SparsityPattern) (r : Nat) : List Nat :=
  List.range' (p.offset r) (p.offset (r + 1) - p.offset r)

variable {r k : Nat}

theorem mem_positions : k ∈ p.positions r ↔ p.offset r ≤ k ∧ k < p.offset (r + 1) := by
  simp only [positions, List.mem_range'_1]
  omega

theorem Valid.lt_nnz (hp : p.Valid) (hr : r < p.nrows) (hk : k ∈ p.positions r) : k < p.nnz :=
  Nat.lt_of_lt_of_le (mem_positions.1 hk).2 (hp.offset_le_nnz hr)

/-- An offset is a position of one row only. -/
theorem Valid.mem_positions_iff (hp : p.Valid) (hr : r < p.nrows) (hk : k ∈ p.positions r)
    (r' : Nat) : k ∈ p.positions r' ↔ r' = r := by
  rw [mem_positions]
  exact hp.mem_row_iff hr (mem_positions.1 hk) r'

theorem Valid.stores_iff (hp : p.Valid) (hr : r < p.nrows) (c : Nat) :
    p.Stores r c ↔ ∃ k ∈ p.positions r, p.colIndices[k]! = c := by
  simp only [Stores, hp.mem_rowCols_iff hr, mem_positions, true_and, hr]
  constructor
  · rintro ⟨k, h₁, h₂, hc⟩
    exact ⟨k, ⟨h₁, h₂⟩, hc⟩
  · rintro ⟨k, ⟨h₁, h₂⟩, hc⟩
    exact ⟨k, h₁, h₂, hc⟩

theorem Valid.col_lt_ncols (hp : p.Valid) (hr : r < p.nrows) (hk : k ∈ p.positions r) :
    p.colIndices[k]! < p.ncols :=
  hp.col_lt r hr _ ((hp.mem_rowCols_iff hr).2 ⟨k, (mem_positions.1 hk).1, (mem_positions.1 hk).2, rfl⟩)

end SparsityPattern

namespace Csr

variable {ρ : Type} [Scalar ρ]

open SparsityPattern

/-- A sparse matrix: a valid pattern and a value per stored column. -/
def Valid (a : Csr ρ) : Prop := a.pattern.Valid ∧ a.values.size = a.nnz

/-- The value stored at `(r, c)`: that of the offset of row `r` listing column `c`. -/
def get? (a : Csr ρ) (r c : Nat) : Option ρ :=
  let (s, e) := a.pattern.rowRange r
  ((List.range' s (e - s)).find? fun k => a.pattern.colIndices[k]! == c).map fun k => a.values[k]!

variable {a : Csr ρ}

theorem get?_offset (hp : a.pattern.Valid) {r k : Nat} (hr : r < a.pattern.nrows)
    (hk : a.pattern.offset r ≤ k) (hk' : k < a.pattern.offset (r + 1)) :
    a.get? r a.pattern.colIndices[k]! = some a.values[k]! := by
  simp only [get?, rowRange_eq]
  have hsome : ((List.range' (a.pattern.offset r) (a.pattern.offset (r + 1) - a.pattern.offset r)).find?
      fun j => a.pattern.colIndices[j]! == a.pattern.colIndices[k]!).isSome := by
    rw [List.find?_isSome]
    exact ⟨k, List.mem_range'_1.2 ⟨hk, by omega⟩, by simp⟩
  obtain ⟨j, hj⟩ := Option.isSome_iff_exists.1 hsome
  have hmem := List.mem_range'_1.1 (List.mem_of_find?_eq_some hj)
  have hcol : a.pattern.colIndices[j]! = a.pattern.colIndices[k]! := by
    simpa using List.find?_some hj
  rw [hj, hp.col_injective hr hmem.1 (by omega) hk hk' hcol]
  rfl

theorem get?_eq_none (hp : a.pattern.Valid) {r c : Nat} (h : ¬ a.pattern.Stores r c) :
    a.get? r c = none := by
  simp only [get?, rowRange_eq, Option.map_eq_none_iff, List.find?_eq_none, List.mem_range'_1,
    beq_iff_eq]
  intro k hk hc
  by_cases hr : r < a.pattern.nrows
  · exact h ⟨hr, (hp.mem_rowCols_iff hr).2 ⟨k, hk.1, by omega, hc⟩⟩
  · have := hp.offset_succ_of_ge (r := r) (by omega)
    omega

end Csr

end MixedFem
