import MixedFem.Cook
import MixedFem.Proofs.Assembly.Facet
import MixedFem.Proofs.Assembly.Stiffness
import MixedFem.Proofs.Kernel.Condensed
import MixedFem.Proofs.Mesh.Cook
import MixedFem.Proofs.Sparse.Termination

/-!
# The clamped system of Cook's membrane

The solver of Cook's membrane assembles the condensed form `a_condensed` of the mixed elasticity
registry on the quadratic displacement space of the Cook mesh, eliminates the dofs of the
boundary facets on the clamped side `x = 0` from its negative, and runs preconditioned
conjugate gradients on the result. In exact arithmetic every step of that pipeline succeeds:

* the condensed form and the displacement form `a` assemble to the same matrix, since the
  condensed kernel tabulates the displacement stiffness on every cell of nonzero determinant,
  so the two are at Frobenius distance zero;
* the clamped system is symmetric positive definite: the Cook mesh is a grid of nondegenerate
  cells, and the first side of its first column is a clamped boundary facet;
* so its Jacobi preconditioner has positive weights, and conjugate gradients can only stop at
  a solution or at the iteration cap, never at an indefinite operator or preconditioner.

The mesh holds `(n + 1)²` vertices and the space `2 (2 n + 1)²` dofs, and the pattern of the
assembled matrix reserves one offset per dof: the pipeline needs `(2 n + 1)² < 2⁵⁹`.

* `condensedElasticity_shape`, `mixedElasticityRegistry_get`, `assembleForm_eq_ok` : the forms
  of the registry and their assembly;
* `Mesh.grid_firstSide_boundaryFacet`, `mem_locateEntities_facet`, `locateDofs_make` : the
  clamped facets and their dofs;
* `Csr.frobeniusDistance_self` : a valid matrix is at distance zero from itself;
* `Csr.posDef_jacobi_cg` : the Jacobi weights of a symmetric positive definite system, and how
  conjugate gradients on it can end;
* `condensedElasticity_assemble_eq` : the condensed kernel assembles as the displacement
  stiffness does;
* `grid_clamped_posDef` : the clamped system of a grid;
* `cook_clamped_system_posDef` : the whole pipeline on Cook's membrane.
-/

namespace MixedFem

section Forms

variable {ρ : Type} [RealScalar ρ]

/-- The condensed elasticity kernel is `12 × 12`, the shape of the displacement stiffness. -/
theorem condensedElasticity_shape {s : CondensationSettings ρ} {m : PlaneStress ρ}
    {k : ElementKernel ρ} (h : condensedElasticity s m = .ok k) : k.shape = (12, 12) := by
  cases h
  rfl

/-- Once the condensed kernel exists, the registry holds it under `a_condensed`, next to the
displacement stiffness under `a`. -/
theorem mixedElasticityRegistry_get {m : PlaneStress ρ} {k : ElementKernel ρ}
    (hk : condensedElasticity {} m = .ok k) :
    ∃ r, mixedElasticityRegistry m = .ok r ∧ r.get ⟨"a"⟩ = .ok (displacementStiffness m) ∧
      r.get ⟨"a_condensed"⟩ = .ok k :=
  ⟨_, by simp only [mixedElasticityRegistry, hk]; rfl, rfl, rfl⟩

theorem assembleForm_eq_ok {registry : KernelRegistry ρ} {id : FormId} {mesh : Mesh ρ}
    {test trial : FunctionSpace} {k : ElementKernel ρ} {A : Csr ρ} (hk : registry.get id = .ok k)
    (hA : assemble mesh test trial k = .ok A) : assembleForm registry id mesh test trial = .ok A := by
  simp only [assembleForm, hk, hA, Except.mapError, bind, Except.bind]

end Forms

section Located

variable {ρ : Type} [RealScalar ρ] {mesh : Mesh ρ} {t : Topology} {marker : Vec2 ρ → Bool}

/-- A boundary facet whose two ends pass the test is located. -/
theorem mem_locateEntities_facet {f : Nat} (hf : f < t.numFacets)
    (hb : t.isBoundaryFacet f = true) (h₁ : marker (mesh.vertex (t.facet f).1) = true)
    (h₂ : marker (mesh.vertex (t.facet f).2) = true) :
    f ∈ locateEntities mesh t .facet marker true := by
  simp only [locateEntities, Array.mem_filter, Array.mem_range, Bool.not_true, Bool.false_or, hb,
    Bool.true_and]
  exact ⟨hf, by simp [h₁, h₂]⟩

/-- Every located facet is a facet of the topology. -/
theorem lt_of_mem_locateEntities_facet {b : Bool} {f : Nat}
    (h : f ∈ locateEntities mesh t .facet marker b) : f < t.numFacets := by
  simp only [locateEntities, Array.mem_filter, Array.mem_range] at h
  exact h.1

end Located

namespace Mesh

variable {ρ : Type} {nx ny : Nat}

/-- The first side of the first column, from grid point `(0, 0)` to `(0, 1)`, is a boundary
facet of the grid. -/
theorem grid_firstSide_boundaryFacet (pos : Nat → Nat → Vec2 ρ) (hnx : 0 < nx) (hny : 0 < ny) :
    ∃ f < (Topology.ofMesh (gridMesh nx ny pos)).numFacets,
      (Topology.ofMesh (gridMesh nx ny pos)).facet f = (gridIndex nx 0 0, gridIndex nx 0 1) ∧
      (Topology.ofMesh (gridMesh nx ny pos)).isBoundaryFacet f = true := by
  have hkey : vKey nx 0 0 ∈ (gridMesh nx ny pos).edgeKeys := by
    rw [grid_edgeKeys]
    exact vKey_mem_gridKeys (Nat.zero_le nx) hny hnx
  have hmem : vKey nx 0 0 ∈ (Topology.ofMesh (gridMesh nx ny pos)).facets.toList :=
    (Topology.ofMesh_facets_perm _).mem_iff.2 (List.mem_dedup.2 hkey)
  obtain ⟨f, hf, hfe⟩ := List.getElem_of_mem hmem
  rw [Array.length_toList] at hf
  have hfacet : (Topology.ofMesh (gridMesh nx ny pos)).facets[f]! = vKey nx 0 0 := by
    rw [getElem!_pos _ f hf, ← hfe, Array.getElem_toList]
  refine ⟨f, hf, by rw [Topology.facet_eq_getElem hf, ← getElem!_pos _ f hf, hfacet]; rfl, ?_⟩
  -- the side is a key of the first square only
  rw [Topology.ofMesh_isBoundaryFacet_iff hf, hfacet, grid_edgeKeys,
    count_vKey (Nat.zero_le nx) hny hnx, if_pos (.inl rfl)]

end Mesh

section Dofs

variable {ρ : Type} {m : Mesh ρ}

/-- Located on facets of a mesh, the dofs hold both components of both ends of every facet, and
each is a dof of a cell. -/
theorem locateDofs_make (hd : m.DistinctCellVertices) {facets : List Nat}
    (hf : ∀ f ∈ facets, f < (Topology.ofMesh m).numFacets) :
    ∃ dofs, locateDofs (VectorP2Space.make m (Topology.ofMesh m)) facets = .ok dofs ∧
      (∀ d ∈ dofs, ∃ c < m.numCells, d ∈ ((FunctionSpace.vectorP2
        (VectorP2Space.make m (Topology.ofMesh m))).dofsOf c).toList) ∧
      ∀ f ∈ facets, ∀ l < 2, 2 * ((Topology.ofMesh m).facet f).1 + l ∈ dofs ∧
        2 * ((Topology.ofMesh m).facet f).2 + l ∈ dofs := by
  have hfn : ∀ f ∈ facets, f < (VectorP2Space.make m (Topology.ofMesh m)).facetNodes.size :=
    fun f hfm => by simpa [VectorP2Space.make, Topology.numFacets] using hf f hfm
  obtain ⟨dofs, hdofs, -, hmem⟩ := locateDofs_eq _ hfn
  -- the nodes of a facet are its two ends and its midpoint node
  have hnode : ∀ f ∈ facets, ∀ node ∈ [((Topology.ofMesh m).facet f).1,
      ((Topology.ofMesh m).facet f).2, m.numVertices + f], ∀ l < 2, 2 * node + l ∈ dofs :=
    fun f hfm node hn l hl =>
      (hmem _).2 ⟨f, hfm, node, by rwa [VectorP2Space.make_facetNodesOf (hf f hfm)], l, hl, rfl⟩
  refine ⟨dofs, hdofs, fun d hdm => ?_, fun f hfm l hl =>
    ⟨hnode f hfm _ (by simp) l hl, hnode f hfm _ (by simp) l hl⟩⟩
  obtain ⟨f, hfm, node, hn, l, hl, rfl⟩ := (hmem d).1 hdm
  rw [VectorP2Space.make_facetNodesOf (hf f hfm)] at hn
  exact VectorP2Space.make_facetNode_mem_dofsOf hd (Topology.incidence_ofMesh m)
    (hf f hfm) hn hl

end Dofs

variable {K : Type} [Field K] [LinearOrder K]

/-- A valid matrix is at Frobenius distance zero from itself. -/
theorem Csr.frobeniusDistance_self {a : Csr (Exact K)} (ha : a.Valid) :
    ∃ d, a.frobeniusDistance a = .ok d ∧ d.val = 0 := by
  refine ⟨_, Csr.frobeniusDistance_eq rfl rfl, ?_⟩
  rw [Exact.val_sqrt, Csr.val_differenceSum ha ha rfl rfl]
  simp [Exact.sqrt_zero]

variable [IsStrictOrderedRing K]

/-- The Jacobi preconditioner of a valid symmetric positive definite system has positive weights,
and conjugate gradients on the system, from zero, end with a solution or at the iteration cap. -/
theorem Csr.posDef_jacobi_cg {S : Csr (Exact K)} {N : Nat} (hS : S.Valid)
    (hpd : (SystemOperator.sparse S).PosDef N) :
    ∃ inv, Preconditioner.ofCsr S = .ok (.jacobi inv) ∧ inv.size = N ∧
      (∀ i < N, 0 < (inv[i]!).val) ∧
      ∀ (tol : Exact K) (maxIter : Option Nat) (fuel : Nat) (b : Array (Exact K)),
        0 ≤ tol.val → b.size = N →
        (∃ x it, conjugateGradient (.sparse S) (.jacobi inv) tol maxIter fuel b
          (Array.replicate N Scalar.zero) = .ok (x, it)) ∨
        ∃ it m, conjugateGradient (.sparse S) (.jacobi inv) tol maxIter fuel b
          (Array.replicate N Scalar.zero) = .error (.error ⟨it, .maxIterationsReached m⟩) := by
  obtain ⟨hrows, hcols⟩ := hpd.square
  obtain ⟨pc, hpc⟩ : ∃ pc, Preconditioner.ofCsr S = .ok pc := by
    simp only [Preconditioner.ofCsr, Csr.diagonal, Violation.requireEq,
      if_pos (hrows.trans hcols.symm)]
    exact ⟨_, rfl⟩
  have hdiag := Preconditioner.ofCsr_positiveDiagonal hpd hS (fun _ _ => rfl) hpc
  obtain ⟨inv, rfl⟩ := Preconditioner.ofCsr_eq_jacobi hpc
  -- the preconditioner is no identity, so its weights are those of `inv`
  obtain ⟨inv', hinv, hsize, hpos⟩ := hdiag.resolve_left fun h => by cases h
  cases hinv
  refine ⟨inv, hpc, hsize, fun i hi => hpos ⟨i, hi⟩, fun tol maxIter fuel b htol hb => ?_⟩
  exact CgProblem.conjugateGradient_ok_or_bound _ _ tol maxIter fuel b _ hpd hdiag htol hb
    (Array.size_replicate ..)

/-- On a mesh of nondegenerate cells, the condensed kernel of a material with `-1 < ν < 1`
assembles to exactly what the displacement stiffness assembles to. -/
theorem condensedElasticity_assemble_eq (m : PlaneStress (Exact K)) (hν : -1 < m.poisson.val)
    (hν' : m.poisson.val < 1) {k : ElementKernel (Exact K)} (hk : condensedElasticity {} m = .ok k)
    (mesh : Mesh (Exact K))
    (hdet : ∀ c < mesh.numCells, (mesh.cellTriangle c).determinant.val ≠ 0)
    (test trial : FunctionSpace) :
    assemble mesh test trial k = assemble mesh test trial (displacementStiffness m) := by
  refine assemble_congr (condensedElasticity_shape hk) fun c hc => ?_
  obtain ⟨k', A, hk', hA, hkA, -⟩ := condensedElasticity_tabulate_eq_stiffness m hν hν'
    ⟨c, mesh.cellTriangle c⟩ (hdet c (List.mem_range.1 hc))
  obtain rfl : k' = k := Except.ok.inj (hk'.symm.trans hk)
  rw [hkA, hA]

/-- On a grid of nondegenerate cells, for an admissible material and a marker that holds at both
ends of the first side of the first column, the displacement stiffness assembles to a valid
matrix, the dofs of the marked boundary facets are located, and eliminating them from its
negative gives a valid symmetric positive definite system. -/
theorem grid_clamped_posDef {nx ny : Nat} (hnx : 0 < nx) (hny : 0 < ny)
    {pos : Nat → Nat → Vec2 (Exact K)}
    (hdet : ∀ c < (Mesh.gridMesh nx ny pos).numCells,
      ((Mesh.gridMesh nx ny pos).cellTriangle c).determinant.val ≠ 0)
    (m : PlaneStress (Exact K)) (hE : 0 < m.young.val) (hν : -1 < m.poisson.val)
    (hν' : m.poisson.val < 1)
    (hcap : (FunctionSpace.vectorP2 (VectorP2Space.make (Mesh.gridMesh nx ny pos)
      (Topology.ofMesh (Mesh.gridMesh nx ny pos)))).numDofs + 1 < Nat.pow 2 60)
    (hroom : (Mesh.gridMesh nx ny pos).numCells * 144 < Nat.pow 2 59)
    {marker : Vec2 (Exact K) → Bool} (h₀ : marker (pos 0 0) = true)
    (h₁ : marker (pos 0 1) = true) :
    ∃ A dofs S, assemble (Mesh.gridMesh nx ny pos)
        (FunctionSpace.vectorP2 (VectorP2Space.make (Mesh.gridMesh nx ny pos)
          (Topology.ofMesh (Mesh.gridMesh nx ny pos))))
        (FunctionSpace.vectorP2 (VectorP2Space.make (Mesh.gridMesh nx ny pos)
          (Topology.ofMesh (Mesh.gridMesh nx ny pos)))) (displacementStiffness m) = .ok A ∧ A.Valid ∧
      locateDofs (VectorP2Space.make (Mesh.gridMesh nx ny pos) (Topology.ofMesh (Mesh.gridMesh nx ny pos)))
        (locateEntities (Mesh.gridMesh nx ny pos) (Topology.ofMesh (Mesh.gridMesh nx ny pos)) .facet marker
          true).toList = .ok dofs ∧
      A.neg.constrain dofs.toList = .ok S ∧ S.Valid ∧
      (SystemOperator.sparse S).PosDef (FunctionSpace.vectorP2 (VectorP2Space.make
        (Mesh.gridMesh nx ny pos) (Topology.ofMesh (Mesh.gridMesh nx ny pos)))).numDofs := by
  have hlt : ∀ f ∈ (locateEntities (Mesh.gridMesh nx ny pos) (Topology.ofMesh (Mesh.gridMesh nx ny pos))
      .facet marker true).toList, f < (Topology.ofMesh (Mesh.gridMesh nx ny pos)).numFacets :=
    fun f hf => lt_of_mem_locateEntities_facet (Array.mem_toList_iff.1 hf)
  obtain ⟨dofs, hdofs, hcells, hends⟩ :=
    locateDofs_make (Mesh.grid_distinctCellVertices pos) hlt
  -- the first side is a marked boundary facet, so both components at both its ends are clamped
  obtain ⟨f₀, hf₀, hfacet, hb⟩ := Mesh.grid_firstSide_boundaryFacet pos hnx hny
  have hloc : f₀ ∈ (locateEntities (Mesh.gridMesh nx ny pos) (Topology.ofMesh (Mesh.gridMesh nx ny pos))
      .facet marker true).toList := by
    refine Array.mem_toList_iff.2 (mem_locateEntities_facet hf₀ hb ?_ ?_)
    · rw [hfacet, Mesh.grid_vertex pos (Nat.zero_le nx) (Nat.zero_le ny)]
      exact h₀
    · rw [hfacet, Mesh.grid_vertex pos (Nat.zero_le nx) hny]
      exact h₁
  have hclamp : ∀ l < 2, 2 * Mesh.gridIndex nx 0 0 + l ∈ dofs.toList ∧
      2 * Mesh.gridIndex nx 0 1 + l ∈ dofs.toList := fun l hl => by
    have h := hends f₀ hloc l hl
    rw [hfacet] at h
    exact ⟨Array.mem_toList_iff.2 h.1, Array.mem_toList_iff.2 h.2⟩
  obtain ⟨A, S, hA, hvalid, hS, hSvalid, hpd⟩ := grid_stiffness_posDef hnx hny hdet m hE hν hν'
    hcap hroom (fun d hdm => hcells d (Array.mem_toList_iff.1 hdm)) hclamp
  exact ⟨A, dofs, S, hA, hvalid, hdofs, hS, hSvalid, hpd⟩

/-- Cook's membrane in exact arithmetic, for every `n ≥ 1` with `288 n² < 2⁵⁹` (room for the
positions of the pattern and the element tensors of its `2 n²` cells), every material
with `E > 0` and `-1 < ν < 1`, and every marker that holds on the side `x = 0`: the mesh, the
material and the registry are built; the forms `a_condensed` and `a` assemble to one matrix, at
Frobenius distance zero from itself; the dofs of the marked boundary facets are located, and
eliminating them from the negative condensed matrix gives a valid symmetric positive definite
system of `2 (2 n + 1)²` unknowns; its Jacobi preconditioner has positive weights; and conjugate
gradients on it, from zero, end with a solution or at the iteration cap, for every nonnegative
tolerance and every right-hand side. -/
theorem cook_clamped_system_posDef {n : Nat} (hn : 0 < n)
    (hcap : 288 * (n * n) < Nat.pow 2 59) {E ν : Exact K} (hE : 0 < E.val)
    (hν : -1 < ν.val) (hν' : ν.val < 1) (marker : Vec2 (Exact K) → Bool)
    (hmarker : ∀ x : Vec2 (Exact K), x.x.val = 0 → marker x = true) :
    ∃ (mesh : Mesh (Exact K)) (material : PlaneStress (Exact K))
      (registry : KernelRegistry (Exact K)) (Ac Ad S : Csr (Exact K)) (dofs : Array Nat)
      (inv : Array (Exact K)),
      Mesh.cook n = .ok mesh ∧ PlaneStress.make E ν = .ok material ∧
      mixedElasticityRegistry material = .ok registry ∧
      assembleForm registry ⟨"a_condensed"⟩ mesh
        (FunctionSpace.vectorP2 (VectorP2Space.make mesh (Topology.ofMesh mesh)))
        (FunctionSpace.vectorP2 (VectorP2Space.make mesh (Topology.ofMesh mesh))) = .ok Ac ∧
      assembleForm registry ⟨"a"⟩ mesh
        (FunctionSpace.vectorP2 (VectorP2Space.make mesh (Topology.ofMesh mesh)))
        (FunctionSpace.vectorP2 (VectorP2Space.make mesh (Topology.ofMesh mesh))) = .ok Ad ∧
      Ac = Ad ∧ (∃ d, Ac.frobeniusDistance Ad = .ok d ∧ d.val = 0) ∧
      locateDofs (VectorP2Space.make mesh (Topology.ofMesh mesh))
        (locateEntities mesh (Topology.ofMesh mesh) .facet marker true).toList = .ok dofs ∧
      Ac.neg.constrain dofs.toList = .ok S ∧ S.Valid ∧
      2 * (VectorP2Space.make mesh (Topology.ofMesh mesh)).numNodes =
        2 * ((2 * n + 1) * (2 * n + 1)) ∧
      (SystemOperator.sparse S).PosDef
        (2 * (VectorP2Space.make mesh (Topology.ofMesh mesh)).numNodes) ∧
      Preconditioner.ofCsr S = .ok (.jacobi inv) ∧
      inv.size = 2 * (VectorP2Space.make mesh (Topology.ofMesh mesh)).numNodes ∧
      (∀ i < 2 * (VectorP2Space.make mesh (Topology.ofMesh mesh)).numNodes,
        0 < (inv[i]!).val) ∧
      ∀ (tol : Exact K) (maxIter : Option Nat) (fuel : Nat) (b : Array (Exact K)),
        0 ≤ tol.val → b.size = 2 * (VectorP2Space.make mesh (Topology.ofMesh mesh)).numNodes →
        (∃ x it, conjugateGradient (.sparse S) (.jacobi inv) tol maxIter fuel b
          (Array.replicate (2 * (VectorP2Space.make mesh (Topology.ofMesh mesh)).numNodes)
            Scalar.zero) = .ok (x, it)) ∨
        ∃ it m, conjugateGradient (.sparse S) (.jacobi inv) tol maxIter fuel b
          (Array.replicate (2 * (VectorP2Space.make mesh (Topology.ofMesh mesh)).numNodes)
            Scalar.zero) = .error (.error ⟨it, .maxIterationsReached m⟩) := by
  -- the mesh is a grid of counterclockwise cells
  have h59 : Nat.pow 2 59 = 576460752303423488 := rfl
  have hcells : 2 * n * n ≤ Mesh.maxCells := by
    have hmax : Mesh.maxCells = 384307168202282325 := by decide
    rw [Nat.mul_assoc]
    omega
  obtain ⟨pos, hcook, hpos⟩ := Mesh.cook_eq_grid (K := K) hn hcells
  have hdet : ∀ c < (Mesh.gridMesh n n pos).numCells,
      ((Mesh.gridMesh n n pos).cellTriangle c).determinant.val ≠ 0 :=
    fun c hc => (Mesh.cook_determinant_pos hpos hn hc).ne'
  -- `(n + 1)²` vertex nodes and `3 n² + 2 n` facet nodes
  have hnodes : 2 * (VectorP2Space.make (Mesh.gridMesh n n pos)
      (Topology.ofMesh (Mesh.gridMesh n n pos))).numNodes = 2 * ((2 * n + 1) * (2 * n + 1)) := by
    rw [VectorP2Space.make_numNodes, Mesh.grid_numVertices, Mesh.grid_numFacets hn hn]
    ring
  have hdofs : (FunctionSpace.vectorP2 (VectorP2Space.make (Mesh.gridMesh n n pos)
      (Topology.ofMesh (Mesh.gridMesh n n pos)))).numDofs + 1 < Nat.pow 2 60 := by
    have h60 : Nat.pow 2 60 = 2 * Nat.pow 2 59 := rfl
    have hsq : (2 * n + 1) * (2 * n + 1) ≤ 9 * (n * n) := by
      have := Nat.mul_le_mul (show 2 * n + 1 ≤ 3 * n by omega) (show 2 * n + 1 ≤ 3 * n by omega)
      rw [show 3 * n * (3 * n) = 9 * (n * n) by ring] at this
      exact this
    simp only [FunctionSpace.numDofs]
    omega
  -- the ends of the first side lie on `x = 0`
  have hleft : ∀ j ≤ n, marker (pos 0 j) = true := fun j hj =>
    hmarker _ (by rw [(hpos 0 j hj).1]; simp)
  -- the positions of the pattern, and the values of the element tensors, `144` a cell
  have hroom : (Mesh.gridMesh n n pos).numCells * 144 < Nat.pow 2 59 := by
    rw [Mesh.grid_numCells]
    omega
  obtain ⟨A, dofs, S, hA, hvalid, hloc, hS, hSvalid, hpd⟩ := grid_clamped_posDef hn hn hdet
    ⟨E, ν⟩ hE hν hν' hdofs hroom (hleft 0 (Nat.zero_le n)) (hleft 1 hn)
  obtain ⟨k, hk⟩ : ∃ k, condensedElasticity {} (⟨E, ν⟩ : PlaneStress (Exact K)) = .ok k := ⟨_, rfl⟩
  obtain ⟨registry, hreg, hgetA, hgetC⟩ := mixedElasticityRegistry_get hk
  obtain ⟨inv, hpc, hsize, hweights, hcg⟩ := Csr.posDef_jacobi_cg hSvalid hpd
  refine ⟨_, _, registry, A, A, S, dofs, inv, hcook, PlaneStress.make_eq_ok hE hν hν', hreg,
    assembleForm_eq_ok hgetC ((condensedElasticity_assemble_eq _ hν hν' hk _ hdet _ _).trans hA),
    assembleForm_eq_ok hgetA hA, rfl, Csr.frobeniusDistance_self hvalid, hloc, hS, hSvalid, hnodes,
    hpd, hpc, hsize, hweights, hcg⟩

/-- The coarsest Cook mesh, one square cut into two cells, with `E = 1`, `ν = 1/3` and the side
`x = 0` clamped: both forms assemble to one matrix, and the clamped system of `18` unknowns is
symmetric positive definite. -/
theorem cook_clamped_system_posDef_one :
    ∃ (mesh : Mesh (Exact ℚ)) (material : PlaneStress (Exact ℚ))
      (registry : KernelRegistry (Exact ℚ)) (A S : Csr (Exact ℚ)) (dofs : Array Nat),
      Mesh.cook 1 = .ok mesh ∧ PlaneStress.make (Exact.mk 1) (Exact.mk (1 / 3)) = .ok material ∧
      mixedElasticityRegistry material = .ok registry ∧
      assembleForm registry ⟨"a_condensed"⟩ mesh
        (FunctionSpace.vectorP2 (VectorP2Space.make mesh (Topology.ofMesh mesh)))
        (FunctionSpace.vectorP2 (VectorP2Space.make mesh (Topology.ofMesh mesh))) = .ok A ∧
      assembleForm registry ⟨"a"⟩ mesh
        (FunctionSpace.vectorP2 (VectorP2Space.make mesh (Topology.ofMesh mesh)))
        (FunctionSpace.vectorP2 (VectorP2Space.make mesh (Topology.ofMesh mesh))) = .ok A ∧
      locateDofs (VectorP2Space.make mesh (Topology.ofMesh mesh))
        (locateEntities mesh (Topology.ofMesh mesh) .facet (fun x => decide (x.x.val = 0))
          true).toList = .ok dofs ∧
      A.neg.constrain dofs.toList = .ok S ∧ (SystemOperator.sparse S).PosDef 18 := by
  obtain ⟨mesh, material, registry, A, _, S, dofs, -, hcook, hmat, hreg, hc, ha, rfl, -, hloc, hS,
      -, hnodes, hpd, -⟩ :=
    cook_clamped_system_posDef (K := ℚ) (n := 1) (by decide) (by decide)
      (show 0 < (Exact.mk (1 : ℚ)).val by norm_num [Exact.val_mk])
      (show -1 < (Exact.mk (1 / 3 : ℚ)).val by norm_num [Exact.val_mk])
      (show (Exact.mk (1 / 3 : ℚ)).val < 1 by norm_num [Exact.val_mk])
      (fun x => decide (x.x.val = 0)) fun _ h => decide_eq_true h
  rw [hnodes] at hpd
  exact ⟨mesh, material, registry, A, S, dofs, hcook, hmat, hreg, hc, ha, hloc, hS, hpd⟩

/-- With `759250124` cells per side the `(n + 1)²` vertices cannot be reserved: there is no Cook
mesh, so none of the pipeline runs. -/
theorem cook_system_refused_at_capacity :
    ¬ ∃ mesh : Mesh (Exact ℚ), Mesh.cook 759250124 = .ok mesh := by
  rintro ⟨mesh, h⟩
  cases h

end MixedFem
