import Mathlib.Analysis.Convex.Segment
import Mathlib.Tactic.Linarith
import Mathlib.Tactic.Positivity
import MixedFem.Proofs.Mesh.Rectangle

/-!
# Cook's membrane

`Mesh.cook n` is the grid of `n × n` squares mapped onto the quadrilateral with corners
`(0, 0)`, `(48, 44)`, `(48, 60)`, `(0, 44)`: grid point `(i, j)` goes to `(48 s, 44 s + t (44 - 28 s))`
with `s = i / n` and `t = (n - j) / n`, so rows run down from the top edge `t = 1` to the bottom
edge `t = 0`. The map is affine along each row and each column, so every grid square goes to a
trapezoid with vertical sides, and both of its triangles keep their orientation.

* `cook_eq_grid` : the mesh is the grid of these points once its cells can be reserved;
  `cook_capacity_overflow` : a membrane whose vertices cannot be reserved is refused;
* `area_eq_sum`, `grid_area_eq_sum` : the area of a mesh is the sum of the areas of its cells, and
  that of a grid a sum over its squares;
* `cook_lower_determinant`, `cook_upper_determinant` : `48 (44 n - 28 (i + 1)) / n³` and
  `48 (44 n - 28 i) / n³` for the two cells of square `(i, j)`; `cook_area` : `1440`;
* `grid_boundaryFacet_key` : a boundary facet of a grid is a side of a square along its border;
  `ofMesh_countP_boundaryFacets` : boundary facets counted by their keys;
* `cook_boundaryFacet_mem_sides`, `cook_boundaryFacetsAtX` : the boundary facets lie on the sides
  of the membrane, `n` of them on each vertical side;
* `cook_membrane_tiling` : the whole description.
-/

namespace MixedFem

-- The constants of the membrane, computed from their bits.
theorem floatValue_sixteen : floatValue 16.0 = 16 := by decide +kernel

theorem floatValue_fortyFour : floatValue 44.0 = 44 := by decide +kernel

theorem floatValue_fortyEight : floatValue 48.0 = 48 := by decide +kernel

namespace Topology

variable {ρ : Type}

/-- Over the distinct keys, the keys occurring once that pass a test are as many as their
occurrences. -/
theorem countP_dedup_occursOnce (keys : List (Nat × Nat)) (P : Nat × Nat → Bool) :
    keys.dedup.countP (fun e => OccursOnce keys e && P e) =
      keys.countP (fun e => OccursOnce keys e && P e) := by
  rw [List.countP_eq_length_filter, ← List.sum_map_count_dedup_filter_eq_countP]
  have hone : ∀ e ∈ keys.dedup.filter (fun e => OccursOnce keys e && P e), keys.count e = 1 :=
    fun e he => by
      have h := (List.mem_filter.1 he).2
      simp only [Bool.and_eq_true, OccursOnce, beq_iff_eq] at h
      exact h.1
  -- the library counts pairs by decidable equality, the mesh componentwise
  rw [pairBEq_eq] at hone
  rw [List.map_congr_left hone]
  simp

/-- The boundary facets whose key passes a test are as many as the local facets whose key occurs
once and passes it. -/
theorem ofMesh_countP_boundaryFacets (m : Mesh ρ) (P : Nat × Nat → Bool) :
    (List.range (ofMesh m).numFacets).countP
        (fun f => (ofMesh m).isBoundaryFacet f && P ((ofMesh m).facets[f]!)) =
      m.edgeKeys.countP (fun e => OccursOnce m.edgeKeys e && P e) := by
  have hbf : ∀ f ∈ List.range (ofMesh m).numFacets,
      (ofMesh m).isBoundaryFacet f = OccursOnce m.edgeKeys ((ofMesh m).facets[f]!) := fun f hf => by
    rw [Bool.eq_iff_iff, ofMesh_isBoundaryFacet_iff (List.mem_range.1 hf), OccursOnce, beq_iff_eq]
  calc (List.range (ofMesh m).numFacets).countP
        (fun f => (ofMesh m).isBoundaryFacet f && P ((ofMesh m).facets[f]!))
      = ((List.range (ofMesh m).numFacets).map fun f => (ofMesh m).facets[f]!).countP
          (fun e => OccursOnce m.edgeKeys e && P e) := by
        rw [List.countP_map]
        exact List.countP_congr fun f hf => by simp [hbf f hf]
    _ = m.edgeKeys.countP (fun e => OccursOnce m.edgeKeys e && P e) := by
        rw [map_facets_range, (ofMesh_facets_perm m).countP_eq, countP_dedup_occursOnce]

end Topology

namespace Mesh

section Triangles

variable {ρ : Type} [RealScalar ρ]

/-- The triangle with the vertices `cv` of `m`. -/
def triangleOf (m : Mesh ρ) (cv : CellVertices) : Triangle ρ := ⟨m.vertex cv.a, m.vertex cv.b, m.vertex cv.c⟩

theorem cellTriangle_eq_triangleOf (m : Mesh ρ) (c : Nat) :
    m.cellTriangle c = m.triangleOf (m.cellVertices c) := rfl

end Triangles

/-- Cook's membrane is refused once its `(n + 1)²` vertices do not fit: the smallest such size. -/
theorem cook_capacity_overflow :
    (cook 759250124 : Except Violation (Mesh (Exact ℚ))) = .error (.unmet "capacity overflow") := by
  rfl

section Sums

variable {K : Type} [Field K]

/-- The area of a mesh in exact arithmetic is the sum of the areas of its cells. -/
theorem area_eq_sum [LinearOrder K] (m : Mesh (Exact K)) :
    m.area.val = (m.cells.toList.map fun cv => (m.triangleOf cv).area.val).sum := by
  rw [area, Exact.val_foldl_step _ (fun c => (m.cellTriangle c).area.val) _
    (fun s c _ => Exact.val_add _ _), Exact.val_zero, zero_add, ← cellVertices_range, List.map_map]
  rfl

theorem sum_map_flatMap_pair {α β : Type} (g h : α → β) (F : β → K) :
    ∀ l : List α, ((l.flatMap fun p => [g p, h p]).map F).sum = (l.map fun p => F (g p) + F (h p)).sum
  | [] => rfl
  | p :: l => by
    rw [List.flatMap_cons, List.map_append, List.sum_append, sum_map_flatMap_pair g h F l]
    simp [add_assoc]

/-- The area of a grid is a sum over its squares of the areas of their two cells. -/
theorem grid_area_eq_sum [LinearOrder K] (nx ny : Nat) (pos : Nat → Nat → Vec2 (Exact K)) :
    (gridMesh nx ny pos).area.val = ((squares nx ny).map fun p =>
      ((gridMesh nx ny pos).triangleOf (lowerCell nx p)).area.val +
        ((gridMesh nx ny pos).triangleOf (upperCell nx p)).area.val).sum := by
  rw [area_eq_sum, gridMesh_cells, gridCells_toList, sum_map_flatMap_pair]

/-- A sum over the squares of a value of the column is the sum over a row, once per row. -/
theorem sum_map_squares (F : Nat → K) (nx : Nat) :
    ∀ ny, ((squares nx ny).map fun p => F p.1).sum = ny * ((List.range nx).map F).sum
  | 0 => by simp [squares, rowMajor]
  | ny + 1 => by
    rw [squares, rowMajor_succ, List.map_append, List.sum_append, ← squares, sum_map_squares F nx ny,
      List.map_map]
    push_cast
    simp only [Function.comp_def]
    ring

theorem sum_range_sub_odd (a b : K) :
    ∀ k, ((List.range k).map fun i : Nat => a - b * (2 * (i : K) + 1)).sum = k * a - b * k ^ 2
  | 0 => by simp
  | k + 1 => by
    rw [List.sum_range_succ, sum_range_sub_odd a b k]
    push_cast
    ring

end Sums

section Boundary

variable {ρ : Type} {nx ny : Nat}

/-- A boundary facet of a grid is a side of a square along its border: at the top or the bottom,
or on the left or the right. -/
theorem grid_boundaryFacet_key (pos : Nat → Nat → Vec2 ρ) (hnx : 0 < nx) (hny : 0 < ny) {f : Nat}
    (hf : f < (Topology.ofMesh (gridMesh nx ny pos)).numFacets)
    (hb : (Topology.ofMesh (gridMesh nx ny pos)).isBoundaryFacet f = true) :
    (∃ i < nx, (Topology.ofMesh (gridMesh nx ny pos)).facets[f]! = hKey nx i 0 ∨
      (Topology.ofMesh (gridMesh nx ny pos)).facets[f]! = hKey nx i ny) ∨
    (∃ j < ny, (Topology.ofMesh (gridMesh nx ny pos)).facets[f]! = vKey nx 0 j ∨
      (Topology.ofMesh (gridMesh nx ny pos)).facets[f]! = vKey nx nx j) := by
  have hmem := Topology.ofMesh_facet_mem_edgeKeys hf
  have hcount := (Topology.ofMesh_isBoundaryFacet_iff hf).1 hb
  rw [grid_edgeKeys] at hmem hcount
  obtain ⟨⟨a, b⟩, hp, he⟩ := mem_gridKeys.1 hmem
  rw [mem_squares] at hp
  simp only [squareKeys, List.mem_cons, List.not_mem_nil, or_false] at he
  -- the key occurs once, so the square lies along the border on that side
  rcases he with he | he | he | he | he | he <;> rw [he] at hcount ⊢
  · rw [count_hKey hp.1 hp.2 hny] at hcount
    have hb' : b + 1 = ny := by split at hcount <;> omega
    exact .inl ⟨a, hp.1, .inr (by rw [hb'])⟩
  · rw [count_vKey hp.1 hp.2 hnx] at hcount
    have ha' : a + 1 = nx := by split at hcount <;> omega
    exact .inr ⟨b, hp.2, .inr (by rw [ha'])⟩
  · rw [count_dKey hp.1 hp.2] at hcount
    omega
  · rw [count_dKey hp.1 hp.2] at hcount
    omega
  · rw [count_hKey hp.1 hp.2.le hny] at hcount
    have hb' : b = 0 := by split at hcount <;> omega
    exact .inl ⟨a, hp.1, .inl (by rw [hb'])⟩
  · rw [count_vKey hp.1.le hp.2 hnx] at hcount
    have ha' : a = 0 := by split at hcount <;> omega
    exact .inr ⟨b, hp.2, .inl (by rw [ha'])⟩

/-- The keys occurring once whose two ends pass a test of the column, true in one outer column
only: the `ny` vertical sides of that column. -/
theorem countP_gridKeys_column (hnx : 0 < nx) (X : Nat → Bool) {a₀ : Nat}
    (ha₀ : a₀ = 0 ∨ a₀ = nx)
    (hX : ∀ a b, a ≤ nx → b ≤ ny → X (gridIndex nx a b) = decide (a = a₀)) :
    (gridKeys nx ny).countP (fun e => Topology.OccursOnce (gridKeys nx ny) e && (X e.1 && X e.2)) =
      ny := by
  -- a horizontal side spans two columns, a diagonal occurs twice
  have hbottom : (squares nx ny).countP (fun p => Topology.OccursOnce (gridKeys nx ny)
      (hKey nx p.1 (p.2 + 1)) && (X (hKey nx p.1 (p.2 + 1)).1 && X (hKey nx p.1 (p.2 + 1)).2)) = 0 :=
    List.countP_eq_zero.2 fun p hp => by
      rw [mem_squares] at hp
      simp only [hKey, hX _ _ hp.1.le hp.2, hX _ _ hp.1 hp.2]
      simp only [Bool.and_eq_true, decide_eq_true_eq, not_and]
      omega
  have htop : (squares nx ny).countP (fun p => Topology.OccursOnce (gridKeys nx ny)
      (hKey nx p.1 p.2) && (X (hKey nx p.1 p.2).1 && X (hKey nx p.1 p.2).2)) = 0 :=
    List.countP_eq_zero.2 fun p hp => by
      rw [mem_squares] at hp
      simp only [hKey, hX _ _ hp.1.le hp.2.le, hX _ _ hp.1 hp.2.le]
      simp only [Bool.and_eq_true, decide_eq_true_eq, not_and]
      omega
  have hdiag : (squares nx ny).countP (fun p => Topology.OccursOnce (gridKeys nx ny)
      (dKey nx p.1 p.2) && (X (dKey nx p.1 p.2).1 && X (dKey nx p.1 p.2).2)) = 0 :=
    List.countP_eq_zero.2 fun p hp => by
      rw [mem_squares] at hp
      simp [Topology.OccursOnce, count_dKey hp.1 hp.2]
  -- a vertical side is counted in its column
  have hright : (squares nx ny).countP (fun p => Topology.OccursOnce (gridKeys nx ny)
      (vKey nx (p.1 + 1) p.2) && (X (vKey nx (p.1 + 1) p.2).1 && X (vKey nx (p.1 + 1) p.2).2)) =
      (min a₀ nx - (a₀ - 1)) * (min ny ny - 0) :=
    countP_rowMajor_interval (a₀ - 1) a₀ 0 ny fun a ha b hb => by
      simp only [Topology.OccursOnce, count_vKey ha hb hnx]
      simp only [vKey, hX _ _ ha hb.le, hX _ _ ha hb]
      split <;> simp <;> omega
  have hleft : (squares nx ny).countP (fun p => Topology.OccursOnce (gridKeys nx ny)
      (vKey nx p.1 p.2) && (X (vKey nx p.1 p.2).1 && X (vKey nx p.1 p.2).2)) =
      (min (a₀ + 1) nx - a₀) * (min ny ny - 0) :=
    countP_rowMajor_interval a₀ (a₀ + 1) 0 ny fun a ha b hb => by
      simp only [Topology.OccursOnce, count_vKey ha.le hb hnx]
      simp only [vKey, hX _ _ ha.le hb.le, hX _ _ ha.le hb]
      split <;> simp <;> omega
  rw [show (gridKeys nx ny).countP _ = _ from countP_flatMap_squareKeys nx _ (squares nx ny),
    hbottom, hright, hdiag, htop, hleft]
  -- one of the two outer columns is `a₀`
  have hcols : (min a₀ nx - (a₀ - 1)) + (min (a₀ + 1) nx - a₀) = 1 := by
    rcases ha₀ with rfl | rfl <;> omega
  have hrows := congrArg (· * ny) hcols
  simp only [Nat.add_mul, Nat.one_mul] at hrows
  simp only [Nat.min_self, Nat.sub_zero]
  omega

end Boundary

/-- The boundary facets of `m` whose two ends lie on the line `x = c`. -/
noncomputable def boundaryFacetsAtX {K : Type} [Field K] [LinearOrder K] (m : Mesh (Exact K)) (c : K) : Nat :=
  (List.range (Topology.ofMesh m).numFacets).countP fun f => (Topology.ofMesh m).isBoundaryFacet f &&
    (decide ((m.vertex ((Topology.ofMesh m).facets[f]!).1).x.val = c) &&
      decide ((m.vertex ((Topology.ofMesh m).facets[f]!).2).x.val = c))

/-- The image `(48 s, 44 s + t (44 - 28 s))` of a point of the unit square lies on the bottom side
where `t = 0`, on the right one where `s = 1`, on the top one where `t = 1` and on the left one
where `s = 0`. -/
theorem cook_point_mem_sides {K : Type} [Field K] [LinearOrder K] [IsStrictOrderedRing K] {s t : K}
    (hs₀ : 0 ≤ s) (hs₁ : s ≤ 1) (ht₀ : 0 ≤ t) (ht₁ : t ≤ 1) :
    (t = 0 → (48 * s, 44 * s + t * (44 - 28 * s)) ∈ segment K ((0 : K), (0 : K)) (48, 44)) ∧
    (s = 1 → (48 * s, 44 * s + t * (44 - 28 * s)) ∈ segment K ((48 : K), (44 : K)) (48, 60)) ∧
    (t = 1 → (48 * s, 44 * s + t * (44 - 28 * s)) ∈ segment K ((48 : K), (60 : K)) (0, 44)) ∧
    (s = 0 → (48 * s, 44 * s + t * (44 - 28 * s)) ∈ segment K ((0 : K), (44 : K)) (0, 0)) := by
  refine ⟨?_, ?_, ?_, ?_⟩ <;> rintro rfl
  · exact ⟨1 - s, s, by linarith, hs₀, by ring, by ext <;> simp <;> ring⟩
  · exact ⟨1 - t, t, by linarith, ht₀, by ring, by ext <;> simp <;> ring⟩
  · exact ⟨s, 1 - s, hs₀, by linarith, by ring, by ext <;> simp <;> ring⟩
  · exact ⟨t, 1 - t, ht₀, by linarith, by ring, by ext <;> simp⟩

section Cook

variable {K : Type} [Field K] [LinearOrder K] [IsStrictOrderedRing K] {n : Nat}

/-- Cook's membrane is the grid of the images of the grid points, once its cells can be
reserved (and then its vertices can be too): `(i, j)` goes to `(48 s, 44 s + t (44 - 28 s))`, with `s = i / n` and `t = (n - j) / n`. -/
theorem cook_eq_grid (hn : 0 < n) (hcap : 2 * n * n ≤ maxCells) :
    ∃ pos : Nat → Nat → Vec2 (Exact K), cook n = .ok (gridMesh n n pos) ∧ ∀ i j, j ≤ n →
      (pos i j).x.val = 48 * (i / n) ∧
        (pos i j).y.val = 44 * (i / n) + (n - j) / n * (44 - 28 * (i / n)) := by
  simp only [cook, if_neg (Nat.pos_iff_ne_zero.1 hn)]
  refine ⟨_, grid_eq_ok_of_cells_le _ hn hn hcap, fun i j hj => ⟨?_, ?_⟩⟩
  · simp [floatValue_fortyEight]
  · simp only [Exact.val_add, Exact.val_mul, Exact.val_sub, Exact.val_div, Exact.val_ofFloat,
      Exact.val_ofNat, floatValue_fortyFour, floatValue_sixteen, Nat.cast_sub hj]
    push_cast
    ring

/-- The determinant of a cell whose right corners lie in column `k`: positive as long as `k ≤ n`. -/
theorem cook_column_factor_pos (hn : 0 < n) {k : Nat} (hk : k ≤ n) :
    0 < 48 * (44 * (n : K) - 28 * k) / n ^ 3 := by
  have hnK : (0 : K) < n := Nat.cast_pos.2 hn
  have hkK : (k : K) ≤ n := by exact_mod_cast hk
  exact div_pos (by linarith) (by positivity)

variable {pos : Nat → Nat → Vec2 (Exact K)}
  (hpos : ∀ i j, j ≤ n → (pos i j).x.val = 48 * (i / n) ∧
    (pos i j).y.val = 44 * (i / n) + (n - j) / n * (44 - 28 * (i / n)))
include hpos

/-- The lower cell of square `(i, j)`. -/
theorem cook_lower_determinant (hn : 0 < n) {i j : Nat} (hi : i < n) (hj : j < n) :
    ((gridMesh n n pos).triangleOf (lowerCell n (i, j))).determinant.val =
      48 * (44 * n - 28 * ((i + 1 : Nat) : K)) / n ^ 3 := by
  obtain ⟨hx₀, hy₀⟩ := hpos i (j + 1) hj
  obtain ⟨hx₁, hy₁⟩ := hpos (i + 1) (j + 1) hj
  obtain ⟨hx₂, hy₂⟩ := hpos (i + 1) j hj.le
  have hnK : (n : K) ≠ 0 := Nat.cast_ne_zero.2 hn.ne'
  simp only [triangleOf, lowerCell, Triangle.determinant_eq, grid_vertex pos hi.le hj,
    grid_vertex pos hi hj, grid_vertex pos hi hj.le, hx₀, hy₀, hx₁, hy₁, hx₂, hy₂]
  push_cast
  field_simp
  ring

/-- The upper cell of square `(i, j)`. -/
theorem cook_upper_determinant (hn : 0 < n) {i j : Nat} (hi : i < n) (hj : j < n) :
    ((gridMesh n n pos).triangleOf (upperCell n (i, j))).determinant.val =
      48 * (44 * n - 28 * i) / n ^ 3 := by
  obtain ⟨hx₀, hy₀⟩ := hpos i (j + 1) hj
  obtain ⟨hx₁, hy₁⟩ := hpos (i + 1) j hj.le
  obtain ⟨hx₂, hy₂⟩ := hpos i j hj.le
  have hnK : (n : K) ≠ 0 := Nat.cast_ne_zero.2 hn.ne'
  simp only [triangleOf, upperCell, Triangle.determinant_eq, grid_vertex pos hi.le hj,
    grid_vertex pos hi hj.le, grid_vertex pos hi.le hj.le, hx₀, hy₀, hx₁, hy₁, hx₂, hy₂]
  push_cast
  field_simp
  ring

/-- Every cell of the membrane is counterclockwise. -/
theorem cook_determinant_pos (hn : 0 < n) {c : Nat} (hc : c < (gridMesh n n pos).numCells) :
    0 < ((gridMesh n n pos).cellTriangle c).determinant.val := by
  have hmem : (gridMesh n n pos).cellVertices c ∈ (gridMesh n n pos).cells.toList := by
    rw [← cellVertices_range]
    exact List.mem_map.2 ⟨c, List.mem_range.2 hc, rfl⟩
  rw [gridMesh_cells, gridCells_toList, List.mem_flatMap] at hmem
  obtain ⟨⟨i, j⟩, hp, hcv⟩ := hmem
  obtain ⟨hi, hj⟩ : i < n ∧ j < n := mem_squares.1 hp
  simp only [List.mem_cons, List.not_mem_nil, or_false] at hcv
  rw [cellTriangle_eq_triangleOf]
  -- the right corners of the lower cell are in column `i + 1`, those of the upper one in `i`
  rcases hcv with hcv | hcv <;> rw [hcv]
  · rw [cook_lower_determinant hpos hn hi hj]
    exact cook_column_factor_pos hn hi
  · rw [cook_upper_determinant hpos hn hi hj]
    exact cook_column_factor_pos hn hi.le

/-- The two cells of square `(i, j)` together have area `24 (88 n - 28 (2 i + 1)) / n³`. -/
theorem cook_square_area (hn : 0 < n) {p : Nat × Nat} (hp : p ∈ squares n n) :
    ((gridMesh n n pos).triangleOf (lowerCell n p)).area.val +
        ((gridMesh n n pos).triangleOf (upperCell n p)).area.val =
      24 / n ^ 3 * (88 * n - 28 * (2 * (p.1 : K) + 1)) := by
  obtain ⟨hi, hj⟩ := mem_squares.1 hp
  have hnK : (n : K) ≠ 0 := Nat.cast_ne_zero.2 hn.ne'
  simp only [Triangle.area, Exact.val_mul, Exact.val_ofFloat, floatValue_half, Exact.val_abs,
    cook_lower_determinant hpos hn hi hj, cook_upper_determinant hpos hn hi hj,
    abs_of_pos (cook_column_factor_pos (K := K) (k := p.1 + 1) hn hi),
    abs_of_pos (cook_column_factor_pos (K := K) hn hi.le)]
  push_cast
  field_simp
  ring

/-- The cells tile the membrane: their areas add up to `1440`. -/
theorem cook_area (hn : 0 < n) : (gridMesh n n pos).area.val = 1440 := by
  have hnK : (n : K) ≠ 0 := Nat.cast_ne_zero.2 hn.ne'
  rw [grid_area_eq_sum, List.map_congr_left fun p hp => cook_square_area hpos hn hp,
    sum_map_squares (fun i => 24 / n ^ 3 * (88 * n - 28 * (2 * (i : K) + 1))), List.sum_map_mul_left]
  -- the rows add up to `(88 - 28) n²`
  have hrow := sum_range_sub_odd (88 * (n : K)) 28 n
  simp only [mul_add, mul_one] at hrow ⊢
  rw [hrow]
  field_simp
  ring

/-- A grid point on a side of the grid goes to the matching side of the membrane. -/
theorem cook_vertex_mem_sides (hn : 0 < n) {i j : Nat} (hi : i ≤ n) (hj : j ≤ n) :
    (j = n → (((gridMesh n n pos).vertex (gridIndex n i j)).x.val,
      ((gridMesh n n pos).vertex (gridIndex n i j)).y.val) ∈ segment K ((0 : K), (0 : K)) (48, 44)) ∧
    (i = n → (((gridMesh n n pos).vertex (gridIndex n i j)).x.val,
      ((gridMesh n n pos).vertex (gridIndex n i j)).y.val) ∈ segment K ((48 : K), (44 : K)) (48, 60)) ∧
    (j = 0 → (((gridMesh n n pos).vertex (gridIndex n i j)).x.val,
      ((gridMesh n n pos).vertex (gridIndex n i j)).y.val) ∈ segment K ((48 : K), (60 : K)) (0, 44)) ∧
    (i = 0 → (((gridMesh n n pos).vertex (gridIndex n i j)).x.val,
      ((gridMesh n n pos).vertex (gridIndex n i j)).y.val) ∈ segment K ((0 : K), (44 : K)) (0, 0)) := by
  have hnK : (0 : K) < n := Nat.cast_pos.2 hn
  have hiK : (i : K) ≤ n := by exact_mod_cast hi
  have hjK : (j : K) ≤ n := by exact_mod_cast hj
  rw [grid_vertex pos hi hj, (hpos i j hj).1, (hpos i j hj).2]
  obtain ⟨hbottom, hright, htop, hleft⟩ := cook_point_mem_sides (s := (i : K) / n)
    (t := ((n : K) - j) / n) (by positivity) ((div_le_one hnK).2 hiK)
    (div_nonneg (by linarith) hnK.le) ((div_le_one hnK).2 (by linarith))
  refine ⟨fun h => hbottom ?_, fun h => hright ?_, fun h => htop ?_, fun h => hleft ?_⟩ <;> subst h
  · simp
  · exact div_self hnK.ne'
  · simp [hnK.ne']
  · simp

/-- Every boundary facet has both ends on one side of the membrane. -/
theorem cook_boundaryFacet_mem_sides (hn : 0 < n) {f : Nat}
    (hf : f < (Topology.ofMesh (gridMesh n n pos)).numFacets)
    (hb : (Topology.ofMesh (gridMesh n n pos)).isBoundaryFacet f = true) :
    ∃ ab ∈ ([((0, 0), (48, 44)), ((48, 44), (48, 60)), ((48, 60), (0, 44)), ((0, 44), (0, 0))] :
        List ((K × K) × (K × K))),
      ∀ v ∈ [((Topology.ofMesh (gridMesh n n pos)).facets[f]!).1,
          ((Topology.ofMesh (gridMesh n n pos)).facets[f]!).2],
        (((gridMesh n n pos).vertex v).x.val, ((gridMesh n n pos).vertex v).y.val) ∈ segment K ab.1 ab.2 := by
  simp only [List.mem_cons, List.not_mem_nil, or_false, forall_eq_or_imp, forall_eq,
    exists_eq_or_imp, exists_eq_left]
  -- a side of a square along the border of the grid, at the top, the bottom, the left or the right
  rcases grid_boundaryFacet_key pos hn hn hf hb with ⟨i, hi, he | he⟩ | ⟨j, hj, he | he⟩ <;>
    rw [he]
  · exact .inr (.inr (.inl ⟨(cook_vertex_mem_sides hpos hn hi.le (Nat.zero_le n)).2.2.1 rfl,
      (cook_vertex_mem_sides hpos hn hi (Nat.zero_le n)).2.2.1 rfl⟩))
  · exact .inl ⟨(cook_vertex_mem_sides hpos hn hi.le le_rfl).1 rfl,
      (cook_vertex_mem_sides hpos hn hi le_rfl).1 rfl⟩
  · exact .inr (.inr (.inr ⟨(cook_vertex_mem_sides hpos hn (Nat.zero_le n) hj.le).2.2.2 rfl,
      (cook_vertex_mem_sides hpos hn (Nat.zero_le n) hj).2.2.2 rfl⟩))
  · exact .inr (.inl ⟨(cook_vertex_mem_sides hpos hn le_rfl hj.le).2.1 rfl,
      (cook_vertex_mem_sides hpos hn le_rfl hj).2.1 rfl⟩)

omit [IsStrictOrderedRing K] in
/-- On a vertical line through one column of the grid lie `n` boundary facets: the line `x = c`
meets the grid points of column `a₀` only, an outer column. -/
theorem cook_boundaryFacetsAtX (hn : 0 < n) (c : K) {a₀ : Nat} (ha₀ : a₀ = 0 ∨ a₀ = n)
    (hc : ∀ a ≤ n, 48 * ((a : K) / n) = c ↔ a = a₀) : (gridMesh n n pos).boundaryFacetsAtX c = n := by
  rw [boundaryFacetsAtX, Topology.ofMesh_countP_boundaryFacets (gridMesh n n pos) (fun e =>
    decide (((gridMesh n n pos).vertex e.1).x.val = c) && decide (((gridMesh n n pos).vertex e.2).x.val = c)),
    grid_edgeKeys]
  exact countP_gridKeys_column hn (fun v => decide (((gridMesh n n pos).vertex v).x.val = c)) ha₀
    fun a b ha hb => by
      rw [grid_vertex pos ha hb, (hpos a b hb).1]
      exact decide_eq_decide.2 (hc a ha)

/-- For an even `n`, the middle of the right side, `(48, 52)`, is a vertex. -/
theorem cook_tip_vertex (hn : 0 < n) (heven : n % 2 = 0) :
    ∃ v < (gridMesh n n pos).numVertices,
      ((gridMesh n n pos).vertex v).x.val = 48 ∧ ((gridMesh n n pos).vertex v).y.val = 52 := by
  have hhalf : n / 2 ≤ n := Nat.div_le_self n 2
  refine ⟨gridIndex n n (n / 2), by rw [grid_numVertices]; exact gridIndex_lt le_rfl hhalf, ?_⟩
  rw [grid_vertex pos le_rfl hhalf, (hpos n (n / 2) hhalf).1, (hpos n (n / 2) hhalf).2]
  obtain ⟨k, rfl⟩ : ∃ k, n = 2 * k := ⟨n / 2, by omega⟩
  have hk : (k : K) ≠ 0 := Nat.cast_ne_zero.2 (by omega)
  rw [Nat.mul_div_cancel_left k Nat.two_pos]
  push_cast
  constructor
  · field_simp
  · field_simp
    ring

end Cook

end Mesh

/-- Cook's membrane tiles the quadrilateral `(0, 0)`, `(48, 44)`, `(48, 60)`, `(0, 44)` for every
`n ≥ 1` whose `2 n²` cells can be reserved (at most `maxCells`, so `n ≤ 438353264`): every cell is counterclockwise, the areas add up
to `1440`, the `4 n` boundary facets have both ends on one side of the quadrilateral, `n` of them
on `x = 0` and `n` on `x = 48`, and for an even `n` the point `(48, 52)` is a vertex. -/
theorem cook_membrane_tiling {K : Type} [Field K] [LinearOrder K] [IsStrictOrderedRing K] {n : Nat}
    (hn : 0 < n) (hcap : 2 * n * n ≤ Mesh.maxCells) :
    ∃ m : Mesh (Exact K), Mesh.cook n = .ok m ∧
      (∀ c < m.numCells, 0 < (m.cellTriangle c).determinant.val) ∧
      m.area.val = 1440 ∧
      (Topology.ofMesh m).boundaryFacets.size = 4 * n ∧
      (∀ f < (Topology.ofMesh m).numFacets, (Topology.ofMesh m).isBoundaryFacet f = true →
        ∃ ab ∈ ([((0, 0), (48, 44)), ((48, 44), (48, 60)), ((48, 60), (0, 44)), ((0, 44), (0, 0))] :
            List ((K × K) × (K × K))),
          ∀ v ∈ [((Topology.ofMesh m).facets[f]!).1, ((Topology.ofMesh m).facets[f]!).2],
            ((m.vertex v).x.val, (m.vertex v).y.val) ∈ segment K ab.1 ab.2) ∧
      m.boundaryFacetsAtX 0 = n ∧ m.boundaryFacetsAtX 48 = n ∧
      (n % 2 = 0 → ∃ v < m.numVertices, (m.vertex v).x.val = 48 ∧ (m.vertex v).y.val = 52) := by
  obtain ⟨pos, hcook, hpos⟩ := Mesh.cook_eq_grid (K := K) hn hcap
  have hnK : (n : K) ≠ 0 := Nat.cast_ne_zero.2 hn.ne'
  -- the vertical sides are the columns `0` and `n`
  have hleft : ∀ a ≤ n, 48 * ((a : K) / n) = 0 ↔ a = 0 := fun a _ => by
    simp [hnK]
  have hright : ∀ a ≤ n, 48 * ((a : K) / n) = 48 ↔ a = n := fun a _ => by
    rw [mul_eq_left₀ (by norm_num), div_eq_one_iff_eq hnK, Nat.cast_inj]
  refine ⟨_, hcook, fun c hc => Mesh.cook_determinant_pos hpos hn hc, Mesh.cook_area hpos hn,
    ?_, fun f hf hb => Mesh.cook_boundaryFacet_mem_sides hpos hn hf hb,
    Mesh.cook_boundaryFacetsAtX hpos hn 0 (.inl rfl) hleft,
    Mesh.cook_boundaryFacetsAtX hpos hn 48 (.inr rfl) hright, Mesh.cook_tip_vertex hpos hn⟩
  rw [Mesh.grid_boundaryFacets_size hn hn]
  omega

theorem cook_membrane_tiling_two :
    0 < 2 ∧ 2 * 2 * 2 ≤ Mesh.maxCells ∧
    ∃ m : Mesh (Exact ℚ), Mesh.cook 2 = .ok m ∧
      (∀ c < m.numCells, 0 < (m.cellTriangle c).determinant.val) ∧
      m.area.val = 1440 ∧
      (Topology.ofMesh m).boundaryFacets.size = 4 * 2 ∧
      (∀ f < (Topology.ofMesh m).numFacets, (Topology.ofMesh m).isBoundaryFacet f = true →
        ∃ ab ∈ ([((0, 0), (48, 44)), ((48, 44), (48, 60)), ((48, 60), (0, 44)), ((0, 44), (0, 0))] :
            List ((ℚ × ℚ) × (ℚ × ℚ))),
          ∀ v ∈ [((Topology.ofMesh m).facets[f]!).1, ((Topology.ofMesh m).facets[f]!).2],
            ((m.vertex v).x.val, (m.vertex v).y.val) ∈ segment ℚ ab.1 ab.2) ∧
      m.boundaryFacetsAtX 0 = 2 ∧ m.boundaryFacetsAtX 48 = 2 ∧
      (2 % 2 = 0 → ∃ v < m.numVertices, (m.vertex v).x.val = 48 ∧ (m.vertex v).y.val = 52) :=
  ⟨by decide, by decide, cook_membrane_tiling (by decide) (by decide)⟩

end MixedFem
