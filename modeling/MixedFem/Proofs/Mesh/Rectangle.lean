import Mathlib.Tactic.FieldSimp
import Mathlib.Tactic.Ring
import MixedFem.Mesh.Markers
import MixedFem.Proofs.Geometry.Plane
import MixedFem.Proofs.Mesh.Structured

/-!
# Rectangles of uniform triangles

`Mesh.rectangular L ux uy cpu tl` is the grid of `ux cpu × uy cpu` squares of side `L / cpu`
hanging down from `tl`, once its vertex and cell arrays can be reserved.

* `rectangular_eq_grid`, `unitSquare_eq_grid` : the mesh is the grid of the lattice points
  `squareLattice tl h`, when the `2 nx ny` cells number at most `maxCells` (and then the vertices
  fit too); `rectangular_capacity_overflow` : a rectangle whose vertices do not fit is refused;
* `grid_determinant`, `grid_area` : in exact arithmetic every cell of a lattice grid has
  determinant `h²`, and the area is `nx ny h²`;
* `Markers.mark_by_flag` : a subdomain that reads only the boundary flag marks the entities whose
  flag it accepts, whatever their positions;
* `rectangular_uniform` : the counts of `GridCounts`, the determinants and the area of every
  rectangle, and the interior marks of the unit square.
-/

namespace MixedFem

namespace Topology

/-- The boundary flag of an entity of a dimension. -/
def onBoundary (t : Topology) : EntityDim → Nat → Bool
  | .vertex => t.isBoundaryVertex
  | .facet => t.isBoundaryFacet
  | .cell => t.isBoundaryCell

end Topology

namespace Markers

variable {ρ : Type} [RealScalar ρ]

theorem toList_mapIdx_replicate {α : Type} (n : Nat) (d : α) (f : Nat → α → α) :
    ((Array.replicate n d).mapIdx f).toList = (List.range n).map fun i => f i d := by
  apply List.ext_getElem (by simp)
  intro i _ _
  simp

/-- Every point is inside a subdomain that reads only the boundary flag, so an entity is marked
by its flag alone. -/
theorem mark_by_flag (t : Topology) (mesh : Mesh ρ) (dim : EntityDim) (g : Bool → Bool)
    {d v : Int32} (hdv : d ≠ v) :
    ∃ mk, (new t dim d).mark mesh t (fun _ onBoundary => g onBoundary) v = .ok mk ∧
      mk.count v = (List.range (t.numEntities dim)).countP fun i => g (t.onBoundary dim i) := by
  refine ⟨_, by simp [mark, new, Violation.requireEq]; rfl, ?_⟩
  rw [count, ← Array.length_toList, Array.toList_filter, ← List.countP_eq_length_filter,
    toList_mapIdx_replicate, List.countP_map]
  refine List.countP_congr fun i _ => ?_
  cases dim with
  | vertex => by_cases hg : g (t.isBoundaryVertex i) <;> simp [Topology.onBoundary, hg, hdv]
  | facet =>
    rcases hf : t.facet i with ⟨a, b⟩
    by_cases hg : g (t.isBoundaryFacet i) <;>
      simp [Topology.onBoundary, entityInside, hg, hdv]
  | cell =>
    by_cases hg : g (t.isBoundaryCell i) <;>
      simp [Topology.onBoundary, entityInside, CellVertices.toList, hg, hdv]

end Markers

namespace Mesh

open RealScalar (ofNat)

variable {ρ : Type} [RealScalar ρ]

/-- Corner `(i, j)` of the grid squares of side `h` hanging down from `tl`. -/
def squareLattice (tl : Vec2 ρ) (h : ρ) (i j : Nat) : Vec2 ρ :=
  tl + (Vec2.mk (ofNat i) (-ofNat j)).scale h

/-- A rectangle whose cells fit is the grid of its lattice points. -/
theorem rectangular_eq_grid (L : ρ) (tl : Vec2 ρ) {ux uy cpu : Nat} (hux : 0 < ux) (huy : 0 < uy)
    (hcpu : 0 < cpu) (hcap : 2 * (ux * cpu) * (uy * cpu) ≤ maxCells) :
    rectangular L ux uy cpu tl =
      .ok (gridMesh (ux * cpu) (uy * cpu) (squareLattice tl (L / ofNat cpu))) := by
  have hmax : maxCells < Nat.pow 2 64 := by decide
  -- each side is at most the number of cells, so neither wraps
  have hx : ux * cpu ≤ 2 * (ux * cpu) * (uy * cpu) := by
    have := Nat.le_mul_of_pos_right (2 * (ux * cpu)) (Nat.mul_pos huy hcpu)
    omega
  have hy : uy * cpu ≤ 2 * (ux * cpu) * (uy * cpu) := by
    have := Nat.le_mul_of_pos_left (uy * cpu) (Nat.mul_pos (Nat.two_pos) (Nat.mul_pos hux hcpu))
    omega
  have hnx : ux * cpu % Nat.pow 2 64 = ux * cpu := Nat.mod_eq_of_lt (by omega)
  have hny : uy * cpu % Nat.pow 2 64 = uy * cpu := Nat.mod_eq_of_lt (by omega)
  simp only [rectangular, if_neg (by omega : ¬(cpu = 0 ∨ ux = 0 ∨ uy = 0)), hnx, hny]
  exact grid_eq_ok_of_cells_le _ (Nat.mul_pos hux hcpu) (Nat.mul_pos huy hcpu) hcap

theorem unitSquare_eq_grid {n : Nat} (hn : 0 < n) (hcap : 2 * n * n ≤ maxCells) :
    (unitSquare n : Except Violation (Mesh ρ)) =
      .ok (gridMesh n n (squareLattice ⟨Scalar.zero, Scalar.one⟩ (Scalar.one / ofNat n))) := by
  rw [unitSquare, rectangular_eq_grid _ _ Nat.one_pos Nat.one_pos hn (by rwa [Nat.one_mul]),
    Nat.one_mul]

/-- Above the capacity a rectangle is refused, though all its counts are meaningful. -/
theorem rectangular_capacity_overflow :
    (rectangular (Exact.mk (1 : ℚ)) (Nat.pow 2 59) 1 1 ⟨Exact.mk 0, Exact.mk 1⟩ :
      Except Violation (Mesh (Exact ℚ))) = .error (.unmet "capacity overflow") := by
  rfl

section Exact

variable {K : Type} [Field K] [LinearOrder K] {nx ny : Nat}

@[simp] theorem squareLattice_x (tl : Vec2 (Exact K)) (h : Exact K) (i j : Nat) :
    (squareLattice tl h i j).x.val = tl.x.val + i * h.val := by
  simp [squareLattice, Vec2.scale]

@[simp] theorem squareLattice_y (tl : Vec2 (Exact K)) (h : Exact K) (i j : Nat) :
    (squareLattice tl h i j).y.val = tl.y.val - j * h.val := by
  simp [squareLattice, Vec2.scale]
  ring

/-- Both triangles of a square of side `h` have determinant `h²`: they are counterclockwise. -/
theorem grid_determinant (tl : Vec2 (Exact K)) (h : Exact K) {c : Nat}
    (hc : c < (gridMesh nx ny (squareLattice tl h)).numCells) :
    ((gridMesh nx ny (squareLattice tl h)).cellTriangle c).determinant.val = h.val ^ 2 := by
  have hmem : (gridMesh nx ny (squareLattice tl h)).cellVertices c ∈
      (gridMesh nx ny (squareLattice tl h)).cells.toList := by
    rw [← cellVertices_range]
    exact List.mem_map.2 ⟨c, List.mem_range.2 hc, rfl⟩
  rw [gridMesh_cells, gridCells_toList, List.mem_flatMap] at hmem
  obtain ⟨⟨i, j⟩, hp, hcv⟩ := hmem
  obtain ⟨hi, hj⟩ : i < nx ∧ j < ny := mem_squares.1 hp
  simp only [List.mem_cons, List.not_mem_nil, or_false] at hcv
  simp only [cellTriangle, Triangle.determinant_eq]
  rcases hcv with hcv | hcv <;> rw [hcv]
  · simp only [lowerCell, grid_vertex _ hi.le (Nat.succ_le_of_lt hj),
      grid_vertex _ (Nat.succ_le_of_lt hi) (Nat.succ_le_of_lt hj),
      grid_vertex _ (Nat.succ_le_of_lt hi) hj.le, squareLattice_x, squareLattice_y]
    push_cast
    ring
  · simp only [upperCell, grid_vertex _ hi.le (Nat.succ_le_of_lt hj),
      grid_vertex _ (Nat.succ_le_of_lt hi) hj.le, grid_vertex _ hi.le hj.le, squareLattice_x,
      squareLattice_y]
    push_cast
    ring

/-- Each of the `2 nx ny` cells has area `h² / 2`. -/
theorem grid_area [IsStrictOrderedRing K] (tl : Vec2 (Exact K)) (h : Exact K) :
    (gridMesh nx ny (squareLattice tl h)).area.val = nx * ny * h.val ^ 2 := by
  have hcell : ∀ (s : Exact K), ∀ c ∈ List.range (gridMesh nx ny (squareLattice tl h)).numCells,
      (s + ((gridMesh nx ny (squareLattice tl h)).cellTriangle c).area).val = s.val + 1 / 2 * h.val ^ 2 :=
    fun s c hc => by
      rw [Exact.val_add, Triangle.area, Exact.val_mul, Exact.val_ofFloat, floatValue_half,
        Exact.val_abs, grid_determinant tl h (List.mem_range.1 hc), abs_of_nonneg (sq_nonneg _)]
      push_cast
      ring
  rw [area, Exact.val_foldl_step _ _ _ hcell, Exact.val_zero, zero_add, List.map_const',
    List.sum_replicate, List.length_range, grid_numCells, nsmul_eq_mul]
  push_cast
  ring

end Exact

/-- What a fresh set of `0` markers of a dimension counts as `1` once the subdomain of the entities
off the boundary has marked them `1`. -/
def interiorMarks (m : Mesh ρ) (dim : EntityDim) : Except Violation Nat :=
  (fun mk => mk.count 1) <$>
    (Markers.new (Topology.ofMesh m) dim 0).mark m (Topology.ofMesh m) (fun _ onBoundary => !onBoundary) 1

theorem interiorMarks_eq (m : Mesh ρ) (dim : EntityDim) :
    m.interiorMarks dim = .ok ((List.range ((Topology.ofMesh m).numEntities dim)).countP
      fun i => !(Topology.ofMesh m).onBoundary dim i) := by
  obtain ⟨mk, hmark, hcount⟩ := Markers.mark_by_flag (Topology.ofMesh m) m dim (!·) (d := 0) (v := 1)
    (by decide)
  rw [interiorMarks, hmark, ← hcount]
  rfl

theorem size_boundaryFacets (t : Topology) :
    t.boundaryFacets.size = (List.range t.numFacets).countP t.isBoundaryFacet := by
  rw [Topology.boundaryFacets, ← Array.length_toList, Array.toList_filter, Array.toList_range,
    List.countP_eq_length_filter]

/-- On the unit square of `n × n` squares, `(n - 1)²` vertices, `3n² - 2n` facets and
`2n² - 4n + 2` cells are off the boundary. -/
theorem unitSquare_interiorMarks {n : Nat} (hn : 0 < n) (hcap : 2 * n * n ≤ maxCells) :
    ∃ m : Mesh ρ, unitSquare n = .ok m ∧ m.interiorMarks .vertex = .ok ((n - 1) ^ 2) ∧
      m.interiorMarks .facet = .ok (3 * n ^ 2 - 2 * n) ∧
      m.interiorMarks .cell = .ok (2 * n ^ 2 + 2 - 4 * n) := by
  let pos : Nat → Nat → Vec2 ρ := squareLattice ⟨Scalar.zero, Scalar.one⟩ (Scalar.one / ofNat n)
  have hcounts := grid_gridCounts pos hn hn
  refine ⟨gridMesh n n pos, unitSquare_eq_grid hn hcap, ?_, ?_, ?_⟩
  · rw [interiorMarks_eq]
    have hv := grid_interiorVertices pos hn hn
    rw [← grid_numVertices pos] at hv
    rw [Nat.pow_two, ← hv]
    rfl
  · rw [interiorMarks_eq]
    have hsplit := List.length_eq_countP_add_countP (Topology.ofMesh (gridMesh n n pos)).isBoundaryFacet
      (l := List.range (Topology.ofMesh (gridMesh n n pos)).numFacets)
    simp only [decide_not, Bool.decide_eq_true] at hsplit
    rw [List.length_range, ← size_boundaryFacets, hcounts.boundaryFacets] at hsplit
    congr 1
    change (List.range (Topology.ofMesh (gridMesh n n pos)).numFacets).countP
      (fun i => !(Topology.ofMesh (gridMesh n n pos)).isBoundaryFacet i) = _
    rw [hcounts.numFacets] at hsplit ⊢
    rw [Nat.pow_two]
    omega
  · rw [interiorMarks_eq]
    have hc := grid_interiorCells pos hn hn
    congr 1
    change (List.range (Topology.ofMesh (gridMesh n n pos)).numCells).countP
      (fun i => !(Topology.ofMesh (gridMesh n n pos)).isBoundaryCell i) = _
    rw [Topology.ofMesh_numCells, hc]
    obtain ⟨k, rfl⟩ : ∃ k, n = k + 1 := ⟨n - 1, by omega⟩
    rw [Nat.add_sub_cancel]
    have hexpand : (k + 1) ^ 2 = k * k + 2 * k + 1 := by ring
    rw [hexpand]
    omega

end Mesh

/-- A rectangle of `ux × uy` squares of side `L`, each cut into `cpu × cpu` grid squares, whose
cells fit in an array (at most `maxCells` of them): the counts of an `ux cpu × uy cpu` grid, determinant `(L / cpu)²` in
every cell and area `L² ux uy`; and on the unit square of `n × n` squares, the subdomain of the
entities off the boundary marks `(n - 1)²` vertices, `3n² - 2n` facets and `2n² - 4n + 2` cells. -/
theorem rectangular_uniform {K : Type} [Field K] [LinearOrder K] [IsStrictOrderedRing K]
    {L : K} {ux uy cpu n : Nat} (tl : Vec2 (Exact K)) (hL : 0 < L) (hux : 0 < ux) (huy : 0 < uy)
    (hcpu : 0 < cpu) (hcap : 2 * (ux * cpu) * (uy * cpu) ≤ Mesh.maxCells) (hn : 0 < n)
    (hncap : 2 * n * n ≤ Mesh.maxCells) :
    (∃ m, Mesh.rectangular (Exact.mk L) ux uy cpu tl = .ok m ∧ Mesh.GridCounts m (ux * cpu) (uy * cpu) ∧
      (∀ c < m.numCells, (m.cellTriangle c).determinant.val = (L / cpu) ^ 2) ∧ 0 < (L / cpu) ^ 2 ∧
      m.area.val = L ^ 2 * ux * uy) ∧
    ∃ m : Mesh (Exact K), Mesh.unitSquare n = .ok m ∧ m.interiorMarks .vertex = .ok ((n - 1) ^ 2) ∧
      m.interiorMarks .facet = .ok (3 * n ^ 2 - 2 * n) ∧
      m.interiorMarks .cell = .ok (2 * n ^ 2 + 2 - 4 * n) := by
  have hcpuK : (cpu : K) ≠ 0 := Nat.cast_ne_zero.2 (Nat.pos_iff_ne_zero.1 hcpu)
  have hside : (Exact.mk L / RealScalar.ofNat cpu : Exact K).val = L / cpu := rfl
  refine ⟨⟨_, Mesh.rectangular_eq_grid _ tl hux huy hcpu hcap,
    Mesh.grid_gridCounts _ (Nat.mul_pos hux hcpu) (Nat.mul_pos huy hcpu), fun c hc => ?_,
    pow_pos (div_pos hL (Nat.cast_pos.2 hcpu)) 2, ?_⟩, Mesh.unitSquare_interiorMarks hn hncap⟩
  · rw [Mesh.grid_determinant tl _ hc, hside]
  · rw [Mesh.grid_area, hside]
    push_cast
    field_simp

theorem rectangular_uniform_two_by_one :
    (0 : ℚ) < 2 ∧ 0 < 2 ∧ 0 < 1 ∧ 0 < 2 ∧ 2 * (2 * 2) * (1 * 2) ≤ Mesh.maxCells ∧ 0 < 3 ∧
      2 * 3 * 3 ≤ Mesh.maxCells ∧
      (∃ m, Mesh.rectangular (Exact.mk (2 : ℚ)) 2 1 2 ⟨Exact.mk 0, Exact.mk 1⟩ = .ok m ∧
        Mesh.GridCounts m (2 * 2) (1 * 2) ∧
        (∀ c < m.numCells, (m.cellTriangle c).determinant.val = (2 / (2 : Nat)) ^ 2) ∧
        (0 : ℚ) < (2 / (2 : Nat)) ^ 2 ∧ m.area.val = 2 ^ 2 * (2 : Nat) * (1 : Nat)) ∧
      ∃ m : Mesh (Exact ℚ), Mesh.unitSquare 3 = .ok m ∧ m.interiorMarks .vertex = .ok ((3 - 1) ^ 2) ∧
        m.interiorMarks .facet = .ok (3 * 3 ^ 2 - 2 * 3) ∧
        m.interiorMarks .cell = .ok (2 * 3 ^ 2 + 2 - 4 * 3) :=
  ⟨by norm_num, by decide, by decide, by decide, by decide, by decide, by decide,
    rectangular_uniform ⟨Exact.mk 0, Exact.mk 1⟩ (by norm_num) (by decide) (by decide) (by decide)
      (by decide) (by decide) (by decide)⟩

end MixedFem
