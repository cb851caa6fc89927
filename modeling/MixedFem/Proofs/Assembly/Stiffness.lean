import MixedFem.Proofs.Assembly.Quadratic
import MixedFem.Proofs.Kernel.Rigid
import MixedFem.Proofs.Mesh.Counting
import MixedFem.Proofs.Mesh.Spreading
import MixedFem.Proofs.Space.Conforming

/-!
# The clamped stiffness of a grid is positive definite

On a mesh whose cells are nondegenerate, the displacement stiffness assembles to a symmetric
matrix `A` with `uᵀ A u ≤ 0`: each cell adds its own form, and each form is negative
semidefinite. A field of zero energy is rigid on every cell. On a grid the cells are joined
along their edges, and a rigid motion is fixed by two distinct points, so a field of zero energy
that vanishes at the two ends of one side of a corner cell vanishes everywhere: the quadratic
nodes of the grid are its vertices and the nodes of the facets of its cells. Eliminating such
dofs from `-A` gives a symmetric positive definite system.

* `grid_distinctCellVertices`, `grid_exists_cell` : the cells of a grid and their corners;
* `displacementStiffness_tensors` : the element tensors of a nondegenerate mesh, symmetric,
  negative semidefinite, with the rigid motions as null vectors;
* `restrict_eq_zero_of_two` : a null vector of an element tensor that vanishes at two corners
  of the cell vanishes on the cell;
* `grid_null_eq_zero` : a field of zero energy on a grid, zero at the ends of the first vertical
  side, is zero;
* `grid_stiffness_posDef` : the clamped system is symmetric positive definite.
-/

open scoped Matrix

namespace MixedFem

open Finset

namespace Mesh

variable {ρ : Type} {nx ny : Nat}

theorem lowerCell_nodup {p : Nat × Nat} (hp : p.1 < nx) : (lowerCell nx p).toList.Nodup := by
  simp only [lowerCell, CellVertices.toList, gridIndex_succ_right, List.nodup_cons, List.mem_cons,
    List.not_mem_nil, or_false, not_or, List.nodup_nil, and_true, not_false_eq_true]
  unfold gridIndex
  omega

theorem upperCell_nodup {p : Nat × Nat} (hp : p.1 < nx) : (upperCell nx p).toList.Nodup := by
  simp only [upperCell, CellVertices.toList, gridIndex_succ_right, List.nodup_cons, List.mem_cons,
    List.not_mem_nil, or_false, not_or, List.nodup_nil, and_true, not_false_eq_true]
  unfold gridIndex
  omega

/-- The cells of a grid have three distinct corners. -/
theorem grid_distinctCellVertices (pos : Nat → Nat → Vec2 ρ) :
    (gridMesh nx ny pos).DistinctCellVertices := by
  intro cv hcv
  rw [gridMesh_cells, ← Array.mem_toList_iff, gridCells_toList, List.mem_flatMap] at hcv
  obtain ⟨p, hp, hcv⟩ := hcv
  have hp1 := (mem_squares.1 hp).1
  simp only [List.mem_cons, List.not_mem_nil, or_false] at hcv
  rcases hcv with rfl | rfl
  · exact lowerCell_nodup hp1
  · exact upperCell_nodup hp1

/-- The two cells of each square are cells of the grid. -/
theorem grid_exists_cell (pos : Nat → Nat → Vec2 ρ) {p : Nat × Nat} (hp : p ∈ squares nx ny)
    {cv : CellVertices} (hcv : cv ∈ [lowerCell nx p, upperCell nx p]) :
    ∃ c < (gridMesh nx ny pos).numCells, (gridMesh nx ny pos).cellVertices c = cv := by
  have hmem : cv ∈ (gridMesh nx ny pos).cells.toList := by
    rw [gridMesh_cells, gridCells_toList, List.mem_flatMap]
    exact ⟨p, hp, hcv⟩
  rw [← cellVertices_range, List.mem_map] at hmem
  obtain ⟨c, hc, rfl⟩ := hmem
  exact ⟨c, List.mem_range.1 hc, rfl⟩

end Mesh

variable {K : Type} [Field K] [LinearOrder K] [IsStrictOrderedRing K]

/-- On a mesh of nondegenerate cells, the displacement stiffness of an admissible material
tabulates on every cell a symmetric, negative semidefinite `12 × 12` tensor whose null vectors
are the rigid motions at the nodes of the cell. -/
theorem displacementStiffness_tensors (m : PlaneStress (Exact K)) (hE : 0 < m.young.val)
    (hν : -1 < m.poisson.val) (hν' : m.poisson.val < 1) (mesh : Mesh (Exact K))
    (hdet : ∀ c < mesh.numCells, (mesh.cellTriangle c).determinant.val ≠ 0) :
    ∃ T : Nat → Matrix (Exact K), ∀ c < mesh.numCells,
      (displacementStiffness m).tabulate ⟨c, mesh.cellTriangle c⟩ = .ok (T c) ∧
      ((T c).values 12 12).IsSymm ∧ (∀ U, U ⬝ᵥ ((T c).values 12 12 *ᵥ U) ≤ 0) ∧
      ∀ U, (T c).values 12 12 *ᵥ U = 0 ↔ ∃ c₀ w, ∀ a l,
        U (dof a l) = rigidMotion c₀ w ((mesh.cellTriangle c).toPhysical (p2Nodes[a.val]!)) l := by
  have h : ∀ c, ∃ A : Matrix (Exact K), c < mesh.numCells →
      (displacementStiffness m).tabulate ⟨c, mesh.cellTriangle c⟩ = .ok A ∧
      (A.values 12 12).IsSymm ∧ (∀ U, U ⬝ᵥ (A.values 12 12 *ᵥ U) ≤ 0) ∧
      ∀ U, A.values 12 12 *ᵥ U = 0 ↔ ∃ c₀ w, ∀ a l,
        U (dof a l) = rigidMotion c₀ w ((mesh.cellTriangle c).toPhysical (p2Nodes[a.val]!)) l := by
    intro c
    by_cases hc : c < mesh.numCells
    · obtain ⟨A, hA, -, -, hsymm, hneg, hnull⟩ :=
        displacementStiffness_tabulate_rigid m hE hν hν' ⟨c, mesh.cellTriangle c⟩ (hdet c hc)
      exact ⟨A, fun _ => ⟨hA, hsymm, hneg, hnull⟩⟩
    · exact ⟨default, fun h => absurd h hc⟩
  choose T hT using h
  exact ⟨T, hT⟩

/-- On a triangle of nonzero determinant, the nodal values of a rigid motion that vanish at two
corners vanish everywhere. -/
theorem rigid_eq_zero_of_corners {t : Triangle (Exact K)} (hdet : t.determinant.val ≠ 0)
    {U : Fin 12 → K} {c₀ : K × K} {w : K}
    (hU : ∀ a l, U (dof a l) = rigidMotion c₀ w (t.toPhysical (p2Nodes[a.val]!)) l) {a b : Fin 6}
    (ha : a.val < 3) (hb : b.val < 3) (hab : a ≠ b) (hUa : ∀ l, U (dof a l) = 0)
    (hUb : ∀ l, U (dof b l) = 0) : U = 0 := by
  obtain ⟨rfl, rfl⟩ := rigidMotion_eq_zero_of_ne
    (Triangle.toPhysical_vertex_ne hdet ha hb (Fin.val_ne_of_ne hab))
    (fun l => (hU a l).symm.trans (hUa l)) (fun l => (hU b l).symm.trans (hUb l))
  funext i
  obtain ⟨a', l', rfl⟩ := exists_dof i
  rw [hU]
  fin_cases l' <;> simp [rigidMotion]

section Space

variable {mesh : Mesh (Exact K)} {t : Topology} (hd : mesh.DistinctCellVertices)
  (hD : t.Incidence mesh)
include hd hD

omit [Field K] [LinearOrder K] [IsStrictOrderedRing K] in
/-- Local dof `(a, l)` of a cell reads component `l` of its node `a`. -/
theorem restrict_dof {u : Nat → K} {c : Nat} (hc : c < mesh.numCells) (a : Fin 6) (l : Fin 2) :
    (FunctionSpace.vectorP2 (VectorP2Space.make mesh t)).restrict u c (dof a l) =
      u (2 * ((VectorP2Space.make mesh t).cellNodes[c]!)[a.val]! + l) := by
  simp only [FunctionSpace.restrict, dof]
  rw [VectorP2Space.make_dofsOf hd hD hc a.isLt l.isLt]

/-- Where the values of `u` on a cell are those of a rigid motion and vanish at two corners of the
cell, they vanish on the whole cell. -/
theorem restrict_eq_zero_of_two {u : Nat → K} {c : Nat} (hc : c < mesh.numCells)
    (hdet : (mesh.cellTriangle c).determinant.val ≠ 0)
    (hrigid : ∃ c₀ w, ∀ a l, (FunctionSpace.vectorP2 (VectorP2Space.make mesh t)).restrict u c
      (dof a l) = rigidMotion c₀ w ((mesh.cellTriangle c).toPhysical (p2Nodes[a.val]!)) l)
    {a b : Nat} (ha : a < 3) (hb : b < 3) (hab : a ≠ b)
    (hZa : ∀ l < 2, u (2 * (mesh.cellVertices c).get a + l) = 0)
    (hZb : ∀ l < 2, u (2 * (mesh.cellVertices c).get b + l) = 0) :
    (FunctionSpace.vectorP2 (VectorP2Space.make mesh t)).restrict u c = 0 := by
  obtain ⟨c₀, w, hU⟩ := hrigid
  -- the corners of the cell are its first three nodes
  have hcorner : ∀ {j : Nat} (hj : j < 3), (∀ l < 2, u (2 * (mesh.cellVertices c).get j + l) = 0) →
      ∀ l, (FunctionSpace.vectorP2 (VectorP2Space.make mesh t)).restrict u c
        (dof ⟨j, by omega⟩ l) = 0 := by
    intro j hj hZ l
    rw [restrict_dof hd hD hc,
      VectorP2Space.make_cellNode_vertex hc hD.numCells_eq hj]
    exact hZ l l.isLt
  exact rigid_eq_zero_of_corners hdet hU (a := ⟨a, by omega⟩) (b := ⟨b, by omega⟩) ha hb
    (fun h => hab (Fin.mk.inj_iff.1 h)) (hcorner ha hZa) (hcorner hb hZb)

/-- A field that is rigid on every cell passes, in every cell, from two corners to the third the
property of vanishing at a vertex. -/
theorem spreads_of_rigid {u : Nat → K} {c : Nat} (hc : c < mesh.numCells)
    (hdet : (mesh.cellTriangle c).determinant.val ≠ 0)
    (hrigid : ∃ c₀ w, ∀ a l, (FunctionSpace.vectorP2 (VectorP2Space.make mesh t)).restrict u c
      (dof a l) = rigidMotion c₀ w ((mesh.cellTriangle c).toPhysical (p2Nodes[a.val]!)) l) :
    Mesh.Spreads (fun v => ∀ l < 2, u (2 * v + l) = 0) (mesh.cellVertices c) := by
  intro a ha b hb hab hZa hZb k hk l hl
  have h0 := restrict_eq_zero_of_two hd hD hc hdet hrigid ha hb hab hZa hZb
  have hk' := congrFun h0 (dof ⟨k, by omega⟩ ⟨l, hl⟩)
  rwa [restrict_dof hd hD hc, VectorP2Space.make_cellNode_vertex hc hD.numCells_eq hk] at hk'

end Space

/-- A field of a grid that is rigid on every cell and vanishes at both ends of the first vertical
side vanishes at every dof of the quadratic space: the vertices are reached by spreading over the
cells, the facet nodes through a cell of the facet. -/
theorem grid_null_eq_zero {nx ny : Nat} (hnx : 0 < nx) (hny : 0 < ny)
    {pos : Nat → Nat → Vec2 (Exact K)}
    (hdet : ∀ c < (Mesh.gridMesh nx ny pos).numCells, ((Mesh.gridMesh nx ny pos).cellTriangle c).determinant.val ≠ 0)
    {u : Nat → K}
    (hrigid : ∀ c < (Mesh.gridMesh nx ny pos).numCells, ∃ c₀ w, ∀ a l,
      (FunctionSpace.vectorP2 (VectorP2Space.make (Mesh.gridMesh nx ny pos)
        (Topology.ofMesh (Mesh.gridMesh nx ny pos)))).restrict u c (dof a l) =
        rigidMotion c₀ w (((Mesh.gridMesh nx ny pos).cellTriangle c).toPhysical (p2Nodes[a.val]!)) l)
    (h₀ : ∀ l < 2, u (2 * Mesh.gridIndex nx 0 0 + l) = 0)
    (h₁ : ∀ l < 2, u (2 * Mesh.gridIndex nx 0 1 + l) = 0) {d : Nat}
    (hdof : d < (FunctionSpace.vectorP2 (VectorP2Space.make (Mesh.gridMesh nx ny pos)
      (Topology.ofMesh (Mesh.gridMesh nx ny pos)))).numDofs) : u d = 0 := by
  set mesh := Mesh.gridMesh nx ny pos
  have hd : mesh.DistinctCellVertices := Mesh.grid_distinctCellVertices pos
  have hD := Topology.incidence_ofMesh mesh
  -- every grid point, hence every vertex, vanishes
  have hspread : ∀ p ∈ Mesh.squares nx ny, ∀ cv ∈ [Mesh.lowerCell nx p, Mesh.upperCell nx p],
      Mesh.Spreads (fun v => ∀ l < 2, u (2 * v + l) = 0) cv := fun p hp cv hcv => by
    obtain ⟨c, hc, rfl⟩ := Mesh.grid_exists_cell pos hp hcv
    exact spreads_of_rigid hd hD hc (hdet c hc) (hrigid c hc)
  have hgrid := Mesh.grid_spreads hnx hny
    (fun p hp => ⟨hspread p hp _ (by simp), hspread p hp _ (by simp)⟩) h₀ h₁
  have hvertex : ∀ v < mesh.numVertices, ∀ l < 2, u (2 * v + l) = 0 := by
    intro v hv
    rw [Mesh.grid_numVertices] at hv
    obtain ⟨i, hi, j, hj, rfl⟩ := Mesh.exists_gridIndex hv
    exact hgrid i hi j hj
  -- so every cell vanishes, from its first two corners
  have hcell : ∀ c < mesh.numCells,
      (FunctionSpace.vectorP2 (VectorP2Space.make mesh (Topology.ofMesh mesh))).restrict u c = 0 :=
    fun c hc => restrict_eq_zero_of_two hd hD hc (hdet c hc) (hrigid c hc) (a := 0) (b := 1)
      (by omega) (by omega) (by omega) (hvertex _ (Mesh.cellVertex_lt hc 0))
      (hvertex _ (Mesh.cellVertex_lt hc 1))
  -- a dof is a component of a vertex or of a facet node
  obtain ⟨p, l, hl, rfl⟩ : ∃ p l, l < 2 ∧ d = 2 * p + l := ⟨d / 2, d % 2, Nat.mod_lt _ (by omega),
    (Nat.div_add_mod d 2).symm⟩
  have hp : p < mesh.numVertices + (Topology.ofMesh mesh).numFacets := by
    simp only [FunctionSpace.numDofs, VectorP2Space.make_numNodes] at hdof
    omega
  rcases Nat.lt_or_ge p mesh.numVertices with hpv | hpv
  · exact hvertex p hpv l hl
  · obtain ⟨f, rfl⟩ : ∃ f, p = mesh.numVertices + f := ⟨p - mesh.numVertices, by omega⟩
    obtain ⟨c, hc, k, hk, hck⟩ := hD.exists_cellFacet_eq (f := f) (by omega)
    have h := congrFun (hcell c hc) (dof ⟨3 + k, by omega⟩ ⟨l, hl⟩)
    rwa [restrict_dof hd hD hc, VectorP2Space.make_cellNode_facet hc hD.numCells_eq hk, hck]
      at h

/-- On a grid of nondegenerate cells, for an admissible material, the displacement stiffness
assembles to a valid matrix `A`, and eliminating from `-A` a set of dofs of the cells that holds
both components at both ends of the first vertical side gives a valid symmetric positive definite
system. -/
theorem grid_stiffness_posDef {nx ny : Nat} (hnx : 0 < nx) (hny : 0 < ny)
    {pos : Nat → Nat → Vec2 (Exact K)}
    (hdet : ∀ c < (Mesh.gridMesh nx ny pos).numCells,
      ((Mesh.gridMesh nx ny pos).cellTriangle c).determinant.val ≠ 0)
    (m : PlaneStress (Exact K)) (hE : 0 < m.young.val) (hν : -1 < m.poisson.val)
    (hν' : m.poisson.val < 1)
    (hcap : (FunctionSpace.vectorP2 (VectorP2Space.make (Mesh.gridMesh nx ny pos)
      (Topology.ofMesh (Mesh.gridMesh nx ny pos)))).numDofs + 1 < Nat.pow 2 60)
    (hroom : (Mesh.gridMesh nx ny pos).numCells * 144 < Nat.pow 2 59)
    {dofs : List Nat}
    (hdofs : ∀ d ∈ dofs, ∃ c < (Mesh.gridMesh nx ny pos).numCells,
      d ∈ ((FunctionSpace.vectorP2 (VectorP2Space.make (Mesh.gridMesh nx ny pos)
        (Topology.ofMesh (Mesh.gridMesh nx ny pos)))).dofsOf c).toList)
    (hclamp : ∀ l < 2, 2 * Mesh.gridIndex nx 0 0 + l ∈ dofs ∧ 2 * Mesh.gridIndex nx 0 1 + l ∈ dofs) :
    ∃ A S, assemble (Mesh.gridMesh nx ny pos)
        (FunctionSpace.vectorP2 (VectorP2Space.make (Mesh.gridMesh nx ny pos)
          (Topology.ofMesh (Mesh.gridMesh nx ny pos))))
        (FunctionSpace.vectorP2 (VectorP2Space.make (Mesh.gridMesh nx ny pos)
          (Topology.ofMesh (Mesh.gridMesh nx ny pos)))) (displacementStiffness m) = .ok A ∧ A.Valid ∧
      A.neg.constrain dofs = .ok S ∧ S.Valid ∧
      (SystemOperator.sparse S).PosDef (FunctionSpace.vectorP2 (VectorP2Space.make
        (Mesh.gridMesh nx ny pos) (Topology.ofMesh (Mesh.gridMesh nx ny pos)))).numDofs := by
  set mesh := Mesh.gridMesh nx ny pos
  set sp := FunctionSpace.vectorP2 (VectorP2Space.make mesh (Topology.ofMesh mesh))
  have hd : mesh.DistinctCellVertices := Mesh.grid_distinctCellVertices pos
  have hD := Topology.incidence_ofMesh mesh
  have hnc : sp.numCells = mesh.numCells := VectorP2Space.make_cellNodes_size hD.numCells_eq
  have hdr : sp.DofsInRange := FunctionSpace.vectorP2_dofsInRange hd
  have hnodup : ∀ c < mesh.numCells, (sp.dofsOf c).toList.Nodup := fun c hc => by
    obtain ⟨d, hdofs, -, hnd, -⟩ := VectorP2Space.make_cellDofs hd hD hc
    rw [FunctionSpace.dofsOf, show FunctionSpace.localDim _ = 12 from rfl, hdofs]
    exact hnd
  obtain ⟨T, hT⟩ := displacementStiffness_tensors m hE hν hν' mesh hdet
  obtain ⟨A, hA, hvalid, hr, hc, hst, hget⟩ := assemble_eq_ok (k := displacementStiffness m) rfl
    hnc hnc hdr hdr hcap hroom hnodup T (fun c hc => (hT c hc).1) fun c => List.mem_range
  -- the entries are the scatter sums of the element tensors
  have hentries : A.neg.entries sp.numDofs =
      -Matrix.of fun r s : Fin sp.numDofs => scatterSum sp sp mesh.numCells T r s := by
    rw [Csr.entries_neg]
    congr 1
    ext r s
    rw [Csr.entries_apply, Matrix.of_apply,
      entry_eq_scatterSum hvalid hst hget hdr hdr hnc hnc r s]
  have hsymmT : ∀ c < mesh.numCells, ((T c).values sp.localDim sp.localDim).IsSymm :=
    fun c hc => (hT c hc).2.1
  have hnegT : ∀ c < mesh.numCells, ∀ U, U ⬝ᵥ ((T c).values sp.localDim sp.localDim *ᵥ U) ≤ 0 :=
    fun c hc => (hT c hc).2.2.1
  have hsymm : (A.neg.entries sp.numDofs).IsSymm := by
    rw [hentries]
    refine Matrix.IsSymm.neg (Matrix.IsSymm.ext fun r s => ?_)
    rw [Matrix.of_apply, Matrix.of_apply]
    refine scatterSum_symm (fun c hc i hi j hj => ?_) s r
    have h := congrFun (congrFun (hsymmT c hc).eq ⟨j, hj⟩) ⟨i, hi⟩
    simpa using h
  -- a clamped dof is a dof of a cell
  have hdiag : ∀ r ∈ dofs, A.neg.pattern.Stores r r := fun r hr => by
    obtain ⟨c, hc, hmem⟩ := hdofs r hr
    exact (hst r r).2 ⟨c, hc, hmem, hmem⟩
  have hlt : ∀ d ∈ dofs, d < sp.numDofs := fun d hdm => by
    obtain ⟨c, hc, hmem⟩ := hdofs d hdm
    exact (hdr c (hnc ▸ hc)).2 d hmem
  obtain ⟨S, hS, hSvalid, hpd⟩ := Csr.constrain_posDef (a := A.neg) hvalid.neg hr hc
    (fun r s h => (hst s r).2 (((hst r s).1 h).symm)) hdiag hlt hsymm
    (fun u => by
      rw [hentries, Matrix.neg_mulVec, dotProduct_neg, neg_nonneg]
      exact dotProduct_scatterSum_nonpos hnegT u)
    (fun u hu0 hq => by
      rw [hentries, Matrix.neg_mulVec, dotProduct_neg, neg_eq_zero] at hq
      -- the field is rigid on every cell, and vanishes at the clamped corners
      have hrigid := fun c hc => ((hT c hc).2.2.2 _).1 (mulVec_restrict_eq_zero hsymmT hnegT hq hc)
      have hclamped : ∀ d ∈ dofs, extendByZero u d = 0 := fun d hdm => by
        rw [extendByZero, dif_pos (hlt d hdm)]
        exact hu0 _ hdm
      funext i
      have h := grid_null_eq_zero hnx hny hdet hrigid (fun l hl => hclamped _ (hclamp l hl).1)
        (fun l hl => hclamped _ (hclamp l hl).2) i.isLt
      rwa [extendByZero, dif_pos i.isLt] at h)
  exact ⟨A, S, hA, hvalid, hS, hSvalid, hpd⟩

end MixedFem
