import Mathlib.Tactic.Ring
import MixedFem.Mesh.Grid
import MixedFem.Proofs.Mesh.Counting

/-!
# Structured grids: cells, facets and boundary

The combinatorics of `Mesh.gridMesh nx ny pos`, whatever the positions. Vertex `(i, j)` has index
`gridIndex nx i j = (nx + 1) j + i`, and a key of the topology is a pair of such indices, so every
count comes down to arithmetic on grid coordinates.

* `rowMajor w h f` : the values `f i j`, `i < w`, `j < h`, row after row; the vertices, the grid
  squares and the vertex indices are such lists (`gridVertices_toList`, `range_eq_rowMajor`),
  and the cells are two per square (`gridCells_toList`); `countP_rowMajor_interval` counts them
  by a box of coordinates;
* `gridMesh` : the mesh of the grid, its cells naming its vertices (`gridCells_lt`); `grid` builds
  it once there is room for its vertices and cells (`grid_eq_ok`), and refuses it otherwise
  (`grid_eq_error`);
* `hKey`, `vKey`, `dKey` : the keys of the horizontal, vertical and diagonal edges; the keys of
  the local facets are six per square (`grid_edgeKeys`), and a key occurs once on the border of
  the grid and twice inside (`count_hKey`, `count_vKey`, `count_dKey`);
* `grid_numFacets`, `grid_boundaryFacets_size`, `grid_size_facetCells` : `3 nx ny + nx + ny`
  facets, `2 (nx + ny)` on the boundary, each with one or two cells;
* `grid_isBoundaryVertex_iff` : the boundary vertices are the points on the border of the grid;
  `grid_interiorVertices`, `grid_interiorCells` : `(nx - 1)(ny - 1)` vertices and
  `2 (nx - 1)(ny - 1)` cells are not on the boundary.
-/

namespace MixedFem

theorem toList_foldl_append {α β : Type} {g : Array β → α → Array β} {F : α → List β}
    (hg : ∀ acc a, (g acc a).toList = acc.toList ++ F a) :
    ∀ (l : List α) (acc : Array β), (l.foldl g acc).toList = acc.toList ++ l.flatMap F
  | [], acc => by simp
  | a :: l, acc => by
    rw [List.foldl_cons, toList_foldl_append hg l, hg, List.flatMap_cons, List.append_assoc]

/-- The tests `a ≤ i < b` over `i < n` hold `min b n - a` times. -/
theorem countP_range_interval (a b : Nat) :
    ∀ n, (List.range n).countP (fun i => decide (a ≤ i) && decide (i < b)) = min b n - a
  | 0 => by simp
  | n + 1 => by
    rw [List.range_succ, List.countP_append, countP_range_interval a b n, List.countP_singleton]
    by_cases h : a ≤ n ∧ n < b
    · simp only [h, decide_true, Bool.and_self, if_true]
      omega
    · rw [if_neg (by simpa using h)]
      omega

/-- The values `f i j` for `i < w` and `j < h`, row `j` after row `j - 1`. -/
def rowMajor {α : Type} (w h : Nat) (f : Nat → Nat → α) : List α :=
  (List.range h).flatMap fun j => (List.range w).map fun i => f i j

section RowMajor

variable {α : Type} {w : Nat} {f : Nat → Nat → α}

theorem rowMajor_succ (h : Nat) :
    rowMajor w (h + 1) f = rowMajor w h f ++ (List.range w).map (f · h) := by
  simp [rowMajor, List.range_succ]

@[simp] theorem length_rowMajor (h : Nat) : (rowMajor w h f).length = w * h := by
  induction h with
  | zero => rfl
  | succ h ih => rw [rowMajor_succ, List.length_append, ih, List.length_map, List.length_range,
      Nat.mul_succ]

@[simp] theorem mem_rowMajor {h : Nat} {x : α} :
    x ∈ rowMajor w h f ↔ ∃ j < h, ∃ i < w, f i j = x := by
  simp [rowMajor]

theorem getElem?_rowMajor {h i j : Nat} (hi : i < w) (hj : j < h) :
    (rowMajor w h f)[w * j + i]? = some (f i j) := by
  induction h with
  | zero => omega
  | succ h ih =>
    rw [rowMajor_succ]
    by_cases hjh : j < h
    · have hlt : w * j + i < (rowMajor w h f).length := by
        have := Nat.mul_le_mul_left w (show j + 1 ≤ h by omega)
        rw [length_rowMajor]
        rw [Nat.mul_succ] at this
        omega
      rw [List.getElem?_append_left hlt, ih hjh]
    · obtain rfl : j = h := by omega
      rw [List.getElem?_append_right (by simp), length_rowMajor, Nat.add_sub_cancel_left]
      simp [hi]

/-- The indices `w j + i` in row order are all the indices below `w h`. -/
theorem rowMajor_index (w h : Nat) : rowMajor w h (fun i j => w * j + i) = List.range (w * h) := by
  induction h with
  | zero => rfl
  | succ h ih => rw [rowMajor_succ, ih, Nat.mul_succ, List.range_add]

/-- A test that is a test of the column and a test of the row counts as their product. -/
theorem countP_rowMajor {P : α → Bool} {A B : Nat → Bool}
    (hP : ∀ i < w, ∀ j < h, P (f i j) = (A i && B j)) :
    (rowMajor w h f).countP P = (List.range w).countP A * (List.range h).countP B := by
  induction h with
  | zero => simp [rowMajor]
  | succ h ih =>
    have hrow : ((List.range w).map (f · h)).countP P = if B h then (List.range w).countP A else 0 := by
      rw [List.countP_map]
      by_cases hB : B h = true
      · rw [if_pos hB]
        exact List.countP_congr fun i hi => by
          simp [hP i (List.mem_range.1 hi) h (Nat.lt_succ_self h), hB]
      · rw [if_neg hB, List.countP_eq_zero]
        intro i hi
        simp [hP i (List.mem_range.1 hi) h (Nat.lt_succ_self h), hB]
    rw [rowMajor_succ, List.countP_append, ih fun i hi j hj => hP i hi j (by omega), hrow,
      List.range_succ, List.countP_append, List.countP_singleton]
    split <;> simp [Nat.mul_add]

/-- Counting by a box `[a, b) × [c, d)` of coordinates. -/
theorem countP_rowMajor_interval {h : Nat} {P : α → Bool} (a b c d : Nat)
    (hP : ∀ i < w, ∀ j < h, P (f i j) = true ↔ (a ≤ i ∧ i < b) ∧ (c ≤ j ∧ j < d)) :
    (rowMajor w h f).countP P = (min b w - a) * (min d h - c) := by
  rw [countP_rowMajor (A := fun i => decide (a ≤ i) && decide (i < b))
      (B := fun j => decide (c ≤ j) && decide (j < d)) fun i hi j hj => by
        rw [Bool.eq_iff_iff, hP i hi j hj]
        simp,
    countP_range_interval, countP_range_interval]

end RowMajor

namespace Mesh

variable {ρ : Type}

/-- The index of grid point `(i, j)` in a grid `nx` squares wide. -/
def gridIndex (nx i j : Nat) : Nat := (nx + 1) * j + i

theorem gridIndex_succ_right (nx i j : Nat) : gridIndex nx i (j + 1) = gridIndex nx i j + (nx + 1) := by
  rw [gridIndex, gridIndex, Nat.mul_succ]
  omega

/-- Grid points are told apart by their index. -/
theorem gridIndex_eq_iff {nx i j i' j' : Nat} (hi : i ≤ nx) (hi' : i' ≤ nx) :
    gridIndex nx i j = gridIndex nx i' j' ↔ i = i' ∧ j = j' := by
  constructor
  · intro h
    have hmod := congrArg (· % (nx + 1)) h
    have hdiv := congrArg (· / (nx + 1)) h
    simp only [gridIndex, Nat.mul_add_mod, Nat.mod_eq_of_lt (Nat.lt_succ_of_le hi),
      Nat.mod_eq_of_lt (Nat.lt_succ_of_le hi')] at hmod
    simp only [gridIndex, Nat.mul_add_div (Nat.succ_pos nx), Nat.div_eq_of_lt (Nat.lt_succ_of_le hi),
      Nat.div_eq_of_lt (Nat.lt_succ_of_le hi')] at hdiv
    omega
  · rintro ⟨rfl, rfl⟩
    rfl

/-- The squares `(i, j)` of an `nx × ny` grid, row after row. -/
def squares (nx ny : Nat) : List (Nat × Nat) := rowMajor nx ny Prod.mk

@[simp] theorem mem_squares {nx ny : Nat} {p : Nat × Nat} : p ∈ squares nx ny ↔ p.1 < nx ∧ p.2 < ny := by
  obtain ⟨i, j⟩ := p
  simp only [squares, mem_rowMajor, Prod.mk.injEq]
  constructor
  · rintro ⟨j, hj, i, hi, rfl, rfl⟩
    exact ⟨hi, hj⟩
  · rintro ⟨hi, hj⟩
    exact ⟨j, hj, i, hi, rfl, rfl⟩

@[simp] theorem length_squares (nx ny : Nat) : (squares nx ny).length = nx * ny := length_rowMajor ny

/-- The lower right cell of grid square `p`: corners `(i, j+1)`, `(i+1, j+1)`, `(i+1, j)`. -/
def lowerCell (nx : Nat) (p : Nat × Nat) : CellVertices :=
  ⟨gridIndex nx p.1 (p.2 + 1), gridIndex nx (p.1 + 1) (p.2 + 1), gridIndex nx (p.1 + 1) p.2⟩

/-- The upper left cell of grid square `p`: corners `(i, j+1)`, `(i+1, j)`, `(i, j)`. -/
def upperCell (nx : Nat) (p : Nat × Nat) : CellVertices :=
  ⟨gridIndex nx p.1 (p.2 + 1), gridIndex nx (p.1 + 1) p.2, gridIndex nx p.1 p.2⟩

theorem gridVertices_toList (nx ny : Nat) (pos : Nat → Nat → Vec2 ρ) :
    (gridVertices nx ny pos).toList = rowMajor (nx + 1) (ny + 1) pos := by
  have hrow : ∀ (acc : Array (Vec2 ρ)) j, ((List.range (nx + 1)).foldl
      (fun acc i => acc.push (pos i j)) acc).toList = acc.toList ++ (List.range (nx + 1)).map (pos · j) := by
    intro acc j
    rw [toList_foldl_append (F := fun i => [pos i j]) (fun acc i => Array.toList_push ..),
      ← List.map_eq_flatMap]
  rw [gridVertices, toList_foldl_append hrow]
  rfl

theorem gridCells_toList (nx ny : Nat) :
    (gridCells nx ny).toList = (squares nx ny).flatMap fun p => [lowerCell nx p, upperCell nx p] := by
  have hrow : ∀ (acc : Array CellVertices) j, ((List.range nx).foldl (fun acc i =>
      (acc.push ⟨(nx + 1) * (j + 1) + i, (nx + 1) * (j + 1) + (i + 1), (nx + 1) * j + (i + 1)⟩).push
        ⟨(nx + 1) * (j + 1) + i, (nx + 1) * j + (i + 1), (nx + 1) * j + i⟩) acc).toList =
      acc.toList ++ (List.range nx).flatMap fun i => [lowerCell nx (i, j), upperCell nx (i, j)] := by
    intro acc j
    exact toList_foldl_append (fun acc i => by simp [lowerCell, upperCell, gridIndex]) _ acc
  rw [gridCells, toList_foldl_append hrow, squares, rowMajor, List.flatMap_assoc]
  simp [List.flatMap_map]

theorem gridIndex_lt {nx ny i j : Nat} (hi : i ≤ nx) (hj : j ≤ ny) :
    gridIndex nx i j < (nx + 1) * (ny + 1) := by
  have hrow := Nat.mul_le_mul_left (nx + 1) (show j + 1 ≤ ny + 1 by omega)
  rw [Nat.mul_succ] at hrow
  unfold gridIndex
  omega

theorem gridVertices_size (nx ny : Nat) (pos : Nat → Nat → Vec2 ρ) :
    (gridVertices nx ny pos).size = (nx + 1) * (ny + 1) := by
  rw [← Array.length_toList, gridVertices_toList, length_rowMajor]

/-- The corners of the squares are grid points, so the cells of a grid name its vertices. -/
theorem gridCells_lt (nx ny : Nat) (pos : Nat → Nat → Vec2 ρ) :
    ∀ cv ∈ gridCells nx ny, ∀ v ∈ cv.toList, v < (gridVertices nx ny pos).size := by
  intro cv hcv v hv
  rw [← Array.mem_toList_iff, gridCells_toList, List.mem_flatMap] at hcv
  obtain ⟨⟨a, b⟩, hp, hcv⟩ := hcv
  rw [mem_squares] at hp
  rw [gridVertices_size]
  simp only [List.mem_cons, List.not_mem_nil, or_false] at hcv
  rcases hcv with rfl | rfl <;>
    simp only [lowerCell, upperCell, CellVertices.toList, List.mem_cons, List.not_mem_nil,
      or_false] at hv <;>
    rcases hv with rfl | rfl | rfl <;> exact gridIndex_lt (by omega) (by omega)

/-- The mesh of an `nx × ny` grid, as `grid` builds it once its arrays are reserved. -/
def gridMesh (nx ny : Nat) (pos : Nat → Nat → Vec2 ρ) : Mesh ρ :=
  ⟨gridVertices nx ny pos, gridCells nx ny, gridCells_lt nx ny pos⟩

@[simp] theorem gridMesh_vertices (nx ny : Nat) (pos : Nat → Nat → Vec2 ρ) :
    (gridMesh nx ny pos).vertices = gridVertices nx ny pos := rfl

@[simp] theorem gridMesh_cells (nx ny : Nat) (pos : Nat → Nat → Vec2 ρ) :
    (gridMesh nx ny pos).cells = gridCells nx ny := rfl

/-- The check of `make` passes on a grid. -/
theorem make_grid (nx ny : Nat) (pos : Nat → Nat → Vec2 ρ) :
    make (gridVertices nx ny pos) (gridCells nx ny) = .ok (gridMesh nx ny pos) := by
  have hall : ((gridCells nx ny).all fun c => c.toList.all (· < (gridVertices nx ny pos).size)) =
      true := by
    rw [Array.all_eq_true_iff_forall_mem]
    exact fun cv hcv => List.all_eq_true.2 fun v hv => decide_eq_true (gridCells_lt nx ny pos cv hcv v hv)
  rw [make, dif_pos hall]
  rfl

/-- Once there is room for its vertices and its cells, the grid is built. -/
theorem grid_eq_ok {nx ny : Nat} (pos : Nat → Nat → Vec2 ρ) (hv : (nx + 1) * (ny + 1) < Nat.pow 2 59)
    (hc : 2 * nx * ny ≤ maxCells) : grid nx ny pos = .ok (gridMesh nx ny pos) := by
  simp only [grid, reserveVertices, reserveCells, Violation.require, decide_eq_true hv,
    decide_eq_true hc, if_true, make_grid]
  rfl

/-- A grid at least one square wide and high whose cells fit has vertices that fit: it has at
most two more vertices than cells, and `maxCells + 2 < 2^59`. -/
theorem vertices_lt_of_cells_le {nx ny : Nat} (hnx : 0 < nx) (hny : 0 < ny)
    (hc : 2 * nx * ny ≤ maxCells) : (nx + 1) * (ny + 1) < Nat.pow 2 59 := by
  have hmax : maxCells + 2 < Nat.pow 2 59 := by decide
  have hle : (nx + 1) * (ny + 1) ≤ 2 * nx * ny + 2 := by
    obtain ⟨a, rfl⟩ : ∃ a, nx = a + 1 := ⟨nx - 1, by omega⟩
    obtain ⟨b, rfl⟩ : ∃ b, ny = b + 1 := ⟨ny - 1, by omega⟩
    ring_nf
    omega
  omega

/-- A grid at least one square wide and high is built as soon as its cells fit. -/
theorem grid_eq_ok_of_cells_le {nx ny : Nat} (pos : Nat → Nat → Vec2 ρ) (hnx : 0 < nx)
    (hny : 0 < ny) (hc : 2 * nx * ny ≤ maxCells) : grid nx ny pos = .ok (gridMesh nx ny pos) :=
  grid_eq_ok pos (vertices_lt_of_cells_le hnx hny hc) hc

/-- Without room for its vertices or for its cells, the grid is refused, the vertices first. -/
theorem grid_eq_error {nx ny : Nat} (pos : Nat → Nat → Vec2 ρ)
    (h : ¬((nx + 1) * (ny + 1) < Nat.pow 2 59 ∧ 2 * nx * ny ≤ maxCells)) :
    grid nx ny pos = .error (.unmet "capacity overflow") := by
  by_cases hv : (nx + 1) * (ny + 1) < Nat.pow 2 59
  · have hc : ¬2 * nx * ny ≤ maxCells := fun hc => h ⟨hv, hc⟩
    simp only [grid, reserveVertices, reserveCells, Violation.require, decide_eq_true hv,
      decide_eq_false hc, if_true]
    rfl
  · simp only [grid, reserveVertices, Violation.require, decide_eq_false hv]
    rfl

/-- The key of the horizontal edge from `(i, j)` to `(i + 1, j)`. -/
def hKey (nx i j : Nat) : Nat × Nat := (gridIndex nx i j, gridIndex nx (i + 1) j)

/-- The key of the vertical edge from `(i, j)` to `(i, j + 1)`. -/
def vKey (nx i j : Nat) : Nat × Nat := (gridIndex nx i j, gridIndex nx i (j + 1))

/-- The key of the diagonal of square `(i, j)`, from `(i + 1, j)` to `(i, j + 1)`. -/
def dKey (nx i j : Nat) : Nat × Nat := (gridIndex nx (i + 1) j, gridIndex nx i (j + 1))

theorem cellKeys_lowerCell {nx : Nat} {p : Nat × Nat} (hp : p.1 < nx) :
    cellKeys (lowerCell nx p) = [hKey nx p.1 (p.2 + 1), vKey nx (p.1 + 1) p.2, dKey nx p.1 p.2] := by
  simp only [cellKeys, lowerCell, hKey, vKey, dKey, gridIndex_succ_right, List.cons.injEq,
    Prod.mk.injEq, and_true]
  simp only [gridIndex]
  omega

theorem cellKeys_upperCell (nx : Nat) (p : Nat × Nat) :
    cellKeys (upperCell nx p) = [dKey nx p.1 p.2, hKey nx p.1 p.2, vKey nx p.1 p.2] := by
  simp only [cellKeys, upperCell, hKey, vKey, dKey, gridIndex_succ_right, List.cons.injEq,
    Prod.mk.injEq, and_true]
  simp only [gridIndex]
  omega

/-- The keys of the local facets of a square's cells: bottom, right and diagonal of the lower
cell, then diagonal, top and left of the upper one. -/
def squareKeys (nx : Nat) (p : Nat × Nat) : List (Nat × Nat) :=
  [hKey nx p.1 (p.2 + 1), vKey nx (p.1 + 1) p.2, dKey nx p.1 p.2, dKey nx p.1 p.2, hKey nx p.1 p.2,
    vKey nx p.1 p.2]

/-- The keys of the local facets of all cells of the grid. -/
def gridKeys (nx ny : Nat) : List (Nat × Nat) := (squares nx ny).flatMap (squareKeys nx)

theorem grid_edgeKeys (nx ny : Nat) (pos : Nat → Nat → Vec2 ρ) :
    (gridMesh nx ny pos).edgeKeys = gridKeys nx ny := by
  rw [edgeKeys_eq, gridMesh_cells, gridCells_toList, List.flatMap_assoc, gridKeys]
  refine List.flatMap_congr fun p hp => ?_
  rw [List.flatMap_cons, List.flatMap_singleton, cellKeys_lowerCell (mem_squares.1 hp).1,
    cellKeys_upperCell]
  rfl

/-- A count over the keys is a count over the squares, slot by slot. -/
theorem countP_flatMap_squareKeys (nx : Nat) (P : Nat × Nat → Bool) :
    ∀ l : List (Nat × Nat), (l.flatMap (squareKeys nx)).countP P =
      l.countP (fun p => P (hKey nx p.1 (p.2 + 1))) + l.countP (fun p => P (vKey nx (p.1 + 1) p.2)) +
        2 * l.countP (fun p => P (dKey nx p.1 p.2)) + l.countP (fun p => P (hKey nx p.1 p.2)) +
        l.countP (fun p => P (vKey nx p.1 p.2))
  | [] => rfl
  | p :: l => by
    simp only [List.flatMap_cons, List.countP_append, countP_flatMap_squareKeys nx P l,
      List.countP_cons, squareKeys, List.countP_nil]
    omega

theorem countP_flatMap_cells (nx : Nat) (Q : CellVertices → Bool) :
    ∀ l : List (Nat × Nat), (l.flatMap fun p => [lowerCell nx p, upperCell nx p]).countP Q =
      l.countP (fun p => Q (lowerCell nx p)) + l.countP (fun p => Q (upperCell nx p))
  | [] => rfl
  | p :: l => by
    simp only [List.flatMap_cons, List.countP_append, countP_flatMap_cells nx Q l,
      List.countP_cons, List.countP_nil]
    omega

section Counts

variable {nx ny : Nat}

/-- A horizontal edge is the bottom of the square above it and the top of the square below. -/
theorem count_hKey {i j : Nat} (hi : i < nx) (hj : j ≤ ny) (hny : 0 < ny) :
    (gridKeys nx ny).count (hKey nx i j) = if j = 0 ∨ j = ny then 1 else 2 := by
  have hbottom : (squares nx ny).countP (fun p => hKey nx p.1 (p.2 + 1) == hKey nx i j) =
      (min (i + 1) nx - i) * (min j ny - (j - 1)) :=
    countP_rowMajor_interval i (i + 1) (j - 1) j fun a ha b hb => by
      simp (disch := omega) [hKey, gridIndex_eq_iff]
      omega
  have htop : (squares nx ny).countP (fun p => hKey nx p.1 p.2 == hKey nx i j) =
      (min (i + 1) nx - i) * (min (j + 1) ny - j) :=
    countP_rowMajor_interval i (i + 1) j (j + 1) fun a ha b hb => by
      simp (disch := omega) [hKey, gridIndex_eq_iff]
      omega
  have hright : (squares nx ny).countP (fun p => vKey nx (p.1 + 1) p.2 == hKey nx i j) = 0 :=
    List.countP_eq_zero.2 fun p hp => by
      rw [mem_squares] at hp
      simp (disch := omega) [hKey, vKey, gridIndex_eq_iff]
      omega
  have hdiag : (squares nx ny).countP (fun p => dKey nx p.1 p.2 == hKey nx i j) = 0 :=
    List.countP_eq_zero.2 fun p hp => by
      rw [mem_squares] at hp
      simp (disch := omega) [hKey, dKey, gridIndex_eq_iff]
      omega
  have hleft : (squares nx ny).countP (fun p => vKey nx p.1 p.2 == hKey nx i j) = 0 :=
    List.countP_eq_zero.2 fun p hp => by
      rw [mem_squares] at hp
      simp (disch := omega) [hKey, vKey, gridIndex_eq_iff]
      omega
  have hcol : min (i + 1) nx - i = 1 := by omega
  rw [gridKeys, List.count_eq_countP, countP_flatMap_squareKeys, hbottom, hright, hdiag, htop,
    hleft, hcol, Nat.one_mul, Nat.one_mul]
  split <;> omega

/-- A vertical edge is the right side of the square on its left and the left side of the square on
its right. -/
theorem count_vKey {i j : Nat} (hi : i ≤ nx) (hj : j < ny) (hnx : 0 < nx) :
    (gridKeys nx ny).count (vKey nx i j) = if i = 0 ∨ i = nx then 1 else 2 := by
  have hright : (squares nx ny).countP (fun p => vKey nx (p.1 + 1) p.2 == vKey nx i j) =
      (min i nx - (i - 1)) * (min (j + 1) ny - j) :=
    countP_rowMajor_interval (i - 1) i j (j + 1) fun a ha b hb => by
      simp (disch := omega) [vKey, gridIndex_eq_iff]
      omega
  have hleft : (squares nx ny).countP (fun p => vKey nx p.1 p.2 == vKey nx i j) =
      (min (i + 1) nx - i) * (min (j + 1) ny - j) :=
    countP_rowMajor_interval i (i + 1) j (j + 1) fun a ha b hb => by
      simp (disch := omega) [vKey, gridIndex_eq_iff]
      omega
  have hbottom : (squares nx ny).countP (fun p => hKey nx p.1 (p.2 + 1) == vKey nx i j) = 0 :=
    List.countP_eq_zero.2 fun p hp => by
      rw [mem_squares] at hp
      simp (disch := omega) [hKey, vKey, gridIndex_eq_iff]
      omega
  have hdiag : (squares nx ny).countP (fun p => dKey nx p.1 p.2 == vKey nx i j) = 0 :=
    List.countP_eq_zero.2 fun p hp => by
      rw [mem_squares] at hp
      simp (disch := omega) [vKey, dKey, gridIndex_eq_iff]
      omega
  have htop : (squares nx ny).countP (fun p => hKey nx p.1 p.2 == vKey nx i j) = 0 :=
    List.countP_eq_zero.2 fun p hp => by
      rw [mem_squares] at hp
      simp (disch := omega) [hKey, vKey, gridIndex_eq_iff]
      omega
  have hrow : min (j + 1) ny - j = 1 := by omega
  rw [gridKeys, List.count_eq_countP, countP_flatMap_squareKeys, hbottom, hright, hdiag, htop,
    hleft, hrow, Nat.mul_one, Nat.mul_one]
  split <;> omega

/-- A diagonal belongs to the two cells of its square. -/
theorem count_dKey {i j : Nat} (hi : i < nx) (hj : j < ny) :
    (gridKeys nx ny).count (dKey nx i j) = 2 := by
  have hdiag : (squares nx ny).countP (fun p => dKey nx p.1 p.2 == dKey nx i j) =
      (min (i + 1) nx - i) * (min (j + 1) ny - j) :=
    countP_rowMajor_interval i (i + 1) j (j + 1) fun a ha b hb => by
      simp (disch := omega) [dKey, gridIndex_eq_iff]
      omega
  have hbottom : (squares nx ny).countP (fun p => hKey nx p.1 (p.2 + 1) == dKey nx i j) = 0 :=
    List.countP_eq_zero.2 fun p hp => by
      rw [mem_squares] at hp
      simp (disch := omega) [hKey, dKey, gridIndex_eq_iff]
      omega
  have hright : (squares nx ny).countP (fun p => vKey nx (p.1 + 1) p.2 == dKey nx i j) = 0 :=
    List.countP_eq_zero.2 fun p hp => by
      rw [mem_squares] at hp
      simp (disch := omega) [vKey, dKey, gridIndex_eq_iff]
      omega
  have htop : (squares nx ny).countP (fun p => hKey nx p.1 p.2 == dKey nx i j) = 0 :=
    List.countP_eq_zero.2 fun p hp => by
      rw [mem_squares] at hp
      simp (disch := omega) [hKey, dKey, gridIndex_eq_iff]
      omega
  have hleft : (squares nx ny).countP (fun p => vKey nx p.1 p.2 == dKey nx i j) = 0 :=
    List.countP_eq_zero.2 fun p hp => by
      rw [mem_squares] at hp
      simp (disch := omega) [vKey, dKey, gridIndex_eq_iff]
      omega
  have hone : (min (i + 1) nx - i) * (min (j + 1) ny - j) = 1 := by
    rw [show min (i + 1) nx - i = 1 by omega, show min (j + 1) ny - j = 1 by omega]
  rw [gridKeys, List.count_eq_countP, countP_flatMap_squareKeys, hbottom, hright, hdiag, htop,
    hleft, hone]

end Counts

theorem length_gridKeys (nx ny : Nat) : (gridKeys nx ny).length = 6 * (nx * ny) := by
  rw [gridKeys, ← List.countP_true, countP_flatMap_squareKeys]
  simp only [List.countP_true, length_squares]
  omega

theorem mem_gridKeys {nx ny : Nat} {e : Nat × Nat} :
    e ∈ gridKeys nx ny ↔ ∃ p ∈ squares nx ny, e ∈ squareKeys nx p := List.mem_flatMap

theorem hKey_mem_gridKeys {nx ny i j : Nat} (hi : i < nx) (hj : j ≤ ny) (hny : 0 < ny) :
    hKey nx i j ∈ gridKeys nx ny := by
  rw [mem_gridKeys]
  by_cases hjy : j < ny
  · exact ⟨(i, j), mem_squares.2 ⟨hi, hjy⟩, by simp [squareKeys]⟩
  · obtain rfl : j = ny - 1 + 1 := by omega
    exact ⟨(i, ny - 1), mem_squares.2 ⟨hi, by omega⟩, by simp [squareKeys]⟩

theorem vKey_mem_gridKeys {nx ny i j : Nat} (hi : i ≤ nx) (hj : j < ny) (hnx : 0 < nx) :
    vKey nx i j ∈ gridKeys nx ny := by
  rw [mem_gridKeys]
  by_cases hix : i < nx
  · exact ⟨(i, j), mem_squares.2 ⟨hix, hj⟩, by simp [squareKeys]⟩
  · obtain rfl : i = nx - 1 + 1 := by omega
    exact ⟨(nx - 1, j), mem_squares.2 ⟨by omega, hj⟩, by simp [squareKeys]⟩

section Facets

variable {nx ny : Nat} (hnx : 0 < nx) (hny : 0 < ny)
include hnx hny

/-- Every key of the grid occurs once or twice: every facet has one or two cells. -/
theorem count_gridKeys_of_mem {e : Nat × Nat} (he : e ∈ gridKeys nx ny) :
    (gridKeys nx ny).count e = 1 ∨ (gridKeys nx ny).count e = 2 := by
  obtain ⟨⟨a, b⟩, hp, he⟩ := mem_gridKeys.1 he
  rw [mem_squares] at hp
  simp only [squareKeys, List.mem_cons, List.not_mem_nil, or_false] at he
  rcases he with rfl | rfl | rfl | rfl | rfl | rfl
  · rw [count_hKey hp.1 hp.2 hny]
    split <;> simp
  · rw [count_vKey hp.1 hp.2 hnx]
    split <;> simp
  · exact .inr (count_dKey hp.1 hp.2)
  · exact .inr (count_dKey hp.1 hp.2)
  · rw [count_hKey hp.1 hp.2.le hny]
    split <;> simp
  · rw [count_vKey hp.1.le hp.2 hnx]
    split <;> simp

/-- The keys that occur once are the sides of the squares along the border: `nx` at the top and
at the bottom, `ny` on the left and on the right. -/
theorem countP_occursOnce_gridKeys :
    (gridKeys nx ny).countP (Topology.OccursOnce (gridKeys nx ny)) = 2 * (nx + ny) := by
  have hbottom : (squares nx ny).countP
      (fun p => Topology.OccursOnce (gridKeys nx ny) (hKey nx p.1 (p.2 + 1))) =
      (min nx nx - 0) * (min ny ny - (ny - 1)) :=
    countP_rowMajor_interval 0 nx (ny - 1) ny fun a ha b hb => by
      simp only [Topology.OccursOnce, beq_iff_eq, count_hKey ha hb hny]
      split <;> omega
  have hright : (squares nx ny).countP
      (fun p => Topology.OccursOnce (gridKeys nx ny) (vKey nx (p.1 + 1) p.2)) =
      (min nx nx - (nx - 1)) * (min ny ny - 0) :=
    countP_rowMajor_interval (nx - 1) nx 0 ny fun a ha b hb => by
      simp only [Topology.OccursOnce, beq_iff_eq, count_vKey ha hb hnx]
      split <;> omega
  have hdiag : (squares nx ny).countP
      (fun p => Topology.OccursOnce (gridKeys nx ny) (dKey nx p.1 p.2)) = 0 :=
    List.countP_eq_zero.2 fun p hp => by
      rw [mem_squares] at hp
      simp [Topology.OccursOnce, count_dKey hp.1 hp.2]
  have htop : (squares nx ny).countP
      (fun p => Topology.OccursOnce (gridKeys nx ny) (hKey nx p.1 p.2)) =
      (min nx nx - 0) * (min 1 ny - 0) :=
    countP_rowMajor_interval 0 nx 0 1 fun a ha b hb => by
      simp only [Topology.OccursOnce, beq_iff_eq, count_hKey ha hb.le hny]
      split <;> omega
  have hleft : (squares nx ny).countP
      (fun p => Topology.OccursOnce (gridKeys nx ny) (vKey nx p.1 p.2)) =
      (min 1 nx - 0) * (min ny ny - 0) :=
    countP_rowMajor_interval 0 1 0 ny fun a ha b hb => by
      simp only [Topology.OccursOnce, beq_iff_eq, count_vKey ha.le hb hnx]
      split <;> omega
  rw [show (gridKeys nx ny).countP _ = _ from countP_flatMap_squareKeys nx _ (squares nx ny),
    hbottom, hright, hdiag, htop, hleft]
  simp only [Nat.min_self, Nat.sub_zero, Nat.min_eq_left hnx, Nat.min_eq_left hny,
    Nat.sub_sub_self hnx, Nat.sub_sub_self hny, Nat.mul_one, Nat.one_mul]
  omega

variable (pos : Nat → Nat → Vec2 ρ)

theorem grid_boundaryFacets_size :
    (Topology.ofMesh (gridMesh nx ny pos)).boundaryFacets.size = 2 * (nx + ny) := by
  rw [Topology.ofMesh_boundaryFacets_size, grid_edgeKeys, countP_occursOnce_gridKeys hnx hny]

/-- The facets are the `nx (ny + 1)` horizontal edges, the `(nx + 1) ny` vertical ones and the
`nx ny` diagonals. -/
theorem grid_numFacets :
    (Topology.ofMesh (gridMesh nx ny pos)).numFacets = 3 * (nx * ny) + nx + ny := by
  have h := Topology.two_mul_numFacets (m := gridMesh nx ny pos) fun e he => by
    rw [grid_edgeKeys] at he ⊢
    exact count_gridKeys_of_mem hnx hny he
  rw [grid_edgeKeys, length_gridKeys, grid_boundaryFacets_size hnx hny] at h
  omega

theorem grid_size_facetCells {f : Nat} (hf : f < (Topology.ofMesh (gridMesh nx ny pos)).numFacets) :
    ((Topology.ofMesh (gridMesh nx ny pos)).facetCells[f]!).size = 1 ∨
      ((Topology.ofMesh (gridMesh nx ny pos)).facetCells[f]!).size = 2 := by
  have hmem := Topology.ofMesh_facet_mem_edgeKeys hf
  rw [Topology.ofMesh_size_facetCells hf, grid_edgeKeys]
  rw [grid_edgeKeys] at hmem
  exact count_gridKeys_of_mem hnx hny hmem

end Facets

/-- The counts of a mesh of `nx × ny` squares cut in two triangles each, and of its topology. -/
structure GridCounts (m : Mesh ρ) (nx ny : Nat) : Prop where
  numVertices : m.numVertices = (nx + 1) * (ny + 1)
  numCells : m.numCells = 2 * (nx * ny)
  numFacets : (Topology.ofMesh m).numFacets = 3 * (nx * ny) + nx + ny
  boundaryFacets : (Topology.ofMesh m).boundaryFacets.size = 2 * (nx + ny)
  facetCells : ∀ f < (Topology.ofMesh m).numFacets, ((Topology.ofMesh m).facetCells[f]!).size =
    if (Topology.ofMesh m).isBoundaryFacet f then 1 else 2
  boundaryVertices :
    (List.range m.numVertices).countP (Topology.ofMesh m).isBoundaryVertex = 2 * (nx + ny)
  boundaryCells : (List.range m.numCells).countP (Topology.ofMesh m).isBoundaryCell = 2 * (nx + ny) - 2

section Grid

variable {nx ny : Nat} (pos : Nat → Nat → Vec2 ρ)

/-- The vertex indices in row order are all the indices of the grid's vertices. -/
theorem range_eq_rowMajor (nx ny : Nat) :
    List.range ((nx + 1) * (ny + 1)) = rowMajor (nx + 1) (ny + 1) (gridIndex nx) :=
  (rowMajor_index _ _).symm

theorem grid_numVertices : (gridMesh nx ny pos).numVertices = (nx + 1) * (ny + 1) :=
  gridVertices_size nx ny pos

theorem grid_numCells : (gridMesh nx ny pos).numCells = 2 * (nx * ny) := by
  rw [numCells, gridMesh_cells, ← Array.length_toList, gridCells_toList, ← List.countP_true,
    countP_flatMap_cells]
  simp
  omega

theorem grid_vertex [RealScalar ρ] {i j : Nat} (hi : i ≤ nx) (hj : j ≤ ny) :
    (gridMesh nx ny pos).vertex (gridIndex nx i j) = pos i j := by
  rw [vertex, gridMesh_vertices, Array.getD_eq_getD_getElem?, ← Array.getElem?_toList,
    gridVertices_toList, gridIndex,
    getElem?_rowMajor (Nat.lt_succ_of_le hi) (Nat.lt_succ_of_le hj), Option.getD_some]

variable (hnx : 0 < nx) (hny : 0 < ny)
include hnx hny

/-- The boundary vertices are the points on the border of the grid. -/
theorem grid_isBoundaryVertex_iff {i j : Nat} (hi : i ≤ nx) (hj : j ≤ ny) :
    (Topology.ofMesh (gridMesh nx ny pos)).isBoundaryVertex (gridIndex nx i j) = true ↔
      i = 0 ∨ i = nx ∨ j = 0 ∨ j = ny := by
  rw [Topology.ofMesh_isBoundaryVertex_iff_key, grid_edgeKeys]
  constructor
  · rintro ⟨e, he, hcount, hv⟩
    obtain ⟨⟨a, b⟩, hp, he⟩ := mem_gridKeys.1 he
    rw [mem_squares] at hp
    simp only [squareKeys, List.mem_cons, List.not_mem_nil, or_false] at he
    -- a key that occurs once is a side along the border, and so are both its ends
    rcases he with rfl | rfl | rfl | rfl | rfl | rfl
    · rw [count_hKey hp.1 hp.2 hny] at hcount
      simp (disch := omega) only [hKey, gridIndex_eq_iff] at hv
      split at hcount <;> omega
    · rw [count_vKey hp.1 hp.2 hnx] at hcount
      simp (disch := omega) only [vKey, gridIndex_eq_iff] at hv
      split at hcount <;> omega
    · rw [count_dKey hp.1 hp.2] at hcount
      omega
    · rw [count_dKey hp.1 hp.2] at hcount
      omega
    · rw [count_hKey hp.1 hp.2.le hny] at hcount
      simp (disch := omega) only [hKey, gridIndex_eq_iff] at hv
      split at hcount <;> omega
    · rw [count_vKey hp.1.le hp.2 hnx] at hcount
      simp (disch := omega) only [vKey, gridIndex_eq_iff] at hv
      split at hcount <;> omega
  · intro hborder
    by_cases hrow : j = 0 ∨ j = ny
    · -- the end of a horizontal side along the top or the bottom
      by_cases hix : i < nx
      · exact ⟨hKey nx i j, hKey_mem_gridKeys hix hj hny,
          by rw [count_hKey hix hj hny, if_pos hrow], .inl rfl⟩
      · obtain rfl : i = nx - 1 + 1 := by omega
        exact ⟨hKey nx (nx - 1) j, hKey_mem_gridKeys (by omega) hj hny,
          by rw [count_hKey (by omega) hj hny, if_pos hrow], .inr rfl⟩
    · have hcol : i = 0 ∨ i = nx := by omega
      have hjy : j < ny := by omega
      exact ⟨vKey nx i j, vKey_mem_gridKeys hi hjy hnx,
        by rw [count_vKey hi hjy hnx, if_pos hcol], .inl rfl⟩

/-- The vertices off the boundary are the `(nx - 1)(ny - 1)` inner points of the grid. -/
theorem grid_interiorVertices :
    (List.range ((nx + 1) * (ny + 1))).countP
      (fun v => !(Topology.ofMesh (gridMesh nx ny pos)).isBoundaryVertex v) = (nx - 1) * (ny - 1) := by
  rw [range_eq_rowMajor, countP_rowMajor_interval 1 nx 1 ny fun i hi j hj => by
    rw [Bool.not_eq_true', Bool.eq_false_iff, ne_eq,
      grid_isBoundaryVertex_iff pos hnx hny (Nat.le_of_lt_succ hi) (Nat.le_of_lt_succ hj)]
    omega]
  rw [Nat.min_eq_left (Nat.le_succ nx), Nat.min_eq_left (Nat.le_succ ny)]

theorem grid_boundaryVertices :
    (List.range ((nx + 1) * (ny + 1))).countP
      (Topology.ofMesh (gridMesh nx ny pos)).isBoundaryVertex = 2 * (nx + ny) := by
  have hsplit := List.length_eq_countP_add_countP
    (Topology.ofMesh (gridMesh nx ny pos)).isBoundaryVertex (l := List.range ((nx + 1) * (ny + 1)))
  simp only [decide_not, Bool.decide_eq_true] at hsplit
  rw [List.length_range, grid_interiorVertices pos hnx hny] at hsplit
  obtain ⟨a, rfl⟩ : ∃ a, nx = a + 1 := ⟨nx - 1, by omega⟩
  obtain ⟨b, rfl⟩ : ∃ b, ny = b + 1 := ⟨ny - 1, by omega⟩
  simp only [Nat.add_sub_cancel] at hsplit
  have hexpand : (a + 1 + 1) * (b + 1 + 1) = a * b + 2 * (a + 1 + (b + 1)) := by ring
  omega

/-- The cells off the boundary: a lower cell unless it is in the last row or column, an upper cell
unless it is in the first. -/
theorem grid_interiorCells :
    (List.range (gridMesh nx ny pos).numCells).countP
      (fun c => !(Topology.ofMesh (gridMesh nx ny pos)).isBoundaryCell c) = 2 * ((nx - 1) * (ny - 1)) := by
  have hcell : ∀ c ∈ List.range (gridMesh nx ny pos).numCells,
      (!(Topology.ofMesh (gridMesh nx ny pos)).isBoundaryCell c) = true ↔
        ((fun cv => !(cellKeys cv).any (Topology.OccursOnce (gridKeys nx ny))) ∘
          (gridMesh nx ny pos).cellVertices) c = true := fun c hc => by
    simp only [Function.comp_apply, Bool.not_eq_true', Bool.eq_false_iff, ne_eq,
      Topology.ofMesh_isBoundaryCell_iff_key (List.mem_range.1 hc), grid_edgeKeys, List.any_eq_true,
      Topology.OccursOnce, beq_iff_eq]
  have hlower : (squares nx ny).countP
      (fun p => !(cellKeys (lowerCell nx p)).any (Topology.OccursOnce (gridKeys nx ny))) =
      (min (nx - 1) nx - 0) * (min (ny - 1) ny - 0) :=
    countP_rowMajor_interval 0 (nx - 1) 0 (ny - 1) fun a ha b hb => by
      simp only [cellKeys_lowerCell (p := (a, b)) ha, List.any_cons, List.any_nil, Bool.or_false,
        Topology.OccursOnce, count_hKey ha (Nat.succ_le_of_lt hb) hny, count_vKey ha hb hnx,
        count_dKey ha hb]
      split <;> split <;> simp <;> omega
  have hupper : (squares nx ny).countP
      (fun p => !(cellKeys (upperCell nx p)).any (Topology.OccursOnce (gridKeys nx ny))) =
      (min nx nx - 1) * (min ny ny - 1) :=
    countP_rowMajor_interval 1 nx 1 ny fun a ha b hb => by
      simp only [cellKeys_upperCell, List.any_cons, List.any_nil, Bool.or_false,
        Topology.OccursOnce, count_hKey ha hb.le hny, count_vKey ha.le hb hnx,
        count_dKey ha hb]
      split <;> split <;> simp <;> omega
  rw [List.countP_congr hcell, ← List.countP_map, cellVertices_range, gridMesh_cells,
    gridCells_toList,
    countP_flatMap_cells, hlower, hupper]
  simp only [Nat.min_self, Nat.sub_zero, Nat.min_eq_left (Nat.sub_le nx 1),
    Nat.min_eq_left (Nat.sub_le ny 1)]
  omega

theorem grid_boundaryCells :
    (List.range (gridMesh nx ny pos).numCells).countP
      (Topology.ofMesh (gridMesh nx ny pos)).isBoundaryCell = 2 * (nx + ny) - 2 := by
  have hsplit := List.length_eq_countP_add_countP
    (Topology.ofMesh (gridMesh nx ny pos)).isBoundaryCell (l := List.range (gridMesh nx ny pos).numCells)
  simp only [decide_not, Bool.decide_eq_true] at hsplit
  rw [List.length_range, grid_interiorCells pos hnx hny] at hsplit
  rw [grid_numCells] at hsplit ⊢
  obtain ⟨a, rfl⟩ : ∃ a, nx = a + 1 := ⟨nx - 1, by omega⟩
  obtain ⟨b, rfl⟩ : ∃ b, ny = b + 1 := ⟨ny - 1, by omega⟩
  simp only [Nat.add_sub_cancel] at hsplit
  have hexpand : (a + 1) * (b + 1) = a * b + a + b + 1 := by ring
  omega

theorem grid_gridCounts : GridCounts (gridMesh nx ny pos) nx ny where
  numVertices := grid_numVertices pos
  numCells := grid_numCells pos
  numFacets := grid_numFacets hnx hny pos
  boundaryFacets := grid_boundaryFacets_size hnx hny pos
  facetCells f hf := by
    have hflag : (Topology.ofMesh (gridMesh nx ny pos)).isBoundaryFacet f =
        decide (((Topology.ofMesh (gridMesh nx ny pos)).facetCells[f]!).size = 1) := by
      rw [Topology.isBoundaryFacet, Array.getElem!_eq_getD]
      rfl
    rw [hflag]
    rcases grid_size_facetCells hnx hny pos hf with h | h <;> simp [h]
  boundaryVertices := by rw [grid_numVertices]; exact grid_boundaryVertices pos hnx hny
  boundaryCells := grid_boundaryCells pos hnx hny

end Grid

end Mesh

end MixedFem
