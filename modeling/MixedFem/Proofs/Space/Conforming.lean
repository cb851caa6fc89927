import Mathlib.Algebra.BigOperators.Fin
import Mathlib.Tactic.LinearCombination
import MixedFem.Evaluate
import MixedFem.Proofs.Assembly.Global
import MixedFem.Proofs.Geometry.Plane
import MixedFem.Proofs.Mesh.Topology

/-!
# The quadratic vector space of a mesh is conforming

The space numbers a node per vertex and, after them, a node `nv + f` per facet `f`. Three
numberings meet in it: local facet `k` of a cell joins its local vertices `k` and `k + 1 (mod 3)`,
the reference element puts its midpoint node `3 + k` on the same edge, and the nodes of a facet
are its sorted vertex pair and its midpoint node. So the nodes of a cell are its vertices and the
nodes of its three facets in that order, and read in exact arithmetic every node of a cell sits
where the reference map of the cell sends the matching reference node. On a facet the expansion
of a field on a cell reduces to the quadratic through the three nodes of the facet, in either
orientation of the cell: the cells on the two sides of a facet agree there.

* `Mesh.DistinctCellVertices` : every cell names three distinct vertices;
* `VectorP2Space.make_cellNodes`, `make_facetNodesOf`, `make_numNodes` : the numbering;
* `VectorP2Space.make_cellNodes_nodup`, `make_cellNode_lt`, `make_cellDofs` : the twelve degrees
  of freedom of a cell, distinct and below `numDofs`; `vectorP2_dofsInRange`;
* `VectorP2Space.nodeCoordinates_cellNode` : node positions and the reference nodes;
* `VectorP2Space.cellValue?_eq` : the expansion on a cell, a sum over its six nodes;
  `edgePoint`, `sum_p2Values_edgePoint` : the shape functions on a reference edge;
* `VectorP2Space.facetPoint`, `facetTrace`, `cellValue?_on_facet`, `cellValue?_continuous` : on a
  facet, the expansion is the quadratic through the nodes of the facet, from either side;
* `VectorP2Space.Conforms`, `make_conforms` : all of it, for the space of a mesh.
-/

namespace MixedFem

section Distinct

variable {ρ : Type}

/-- Every cell names three distinct vertices. -/
def Mesh.DistinctCellVertices (m : Mesh ρ) : Prop := ∀ cv ∈ m.cells, cv.toList.Nodup

instance (m : Mesh ρ) : Decidable m.DistinctCellVertices :=
  inferInstanceAs (Decidable (∀ cv ∈ m.cells, cv.toList.Nodup))

theorem Mesh.cellVertices_mem {m : Mesh ρ} {c : Nat} (hc : c < m.numCells) :
    m.cellVertices c ∈ m.cells := by
  simp only [Mesh.cellVertices, Array.getD_eq_getD_getElem?, Array.getElem?_eq_getElem hc,
    Option.getD_some]
  exact Array.getElem_mem hc

/-- The three edges of a cell with distinct vertices have distinct keys. -/
theorem Mesh.edgeKey_injective {m : Mesh ρ} (hd : m.DistinctCellVertices) {c : Nat}
    (hc : c < m.numCells) {k k' : Nat} (hk : k < 3) (hk' : k' < 3)
    (h : m.edgeKey c k = m.edgeKey c k') : k = k' := by
  have hn := hd _ (Mesh.cellVertices_mem hc)
  simp only [CellVertices.toList, List.nodup_cons, List.mem_cons, List.not_mem_nil, or_false,
    not_or, List.nodup_nil, and_true] at hn
  obtain rfl | rfl | rfl : k = 0 ∨ k = 1 ∨ k = 2 := by omega
  all_goals obtain rfl | rfl | rfl : k' = 0 ∨ k' = 1 ∨ k' = 2 := by omega
  -- two different edges of a cell share one vertex and differ in the other
  all_goals (simp [Mesh.edgeKey, CellVertices.get, Prod.ext_iff] at h; omega)

end Distinct

namespace VectorP2Space

section Numbering

variable {ρ : Type} {m : Mesh ρ} {t : Topology}

theorem make_cellNodes_size (ht : t.numCells = m.numCells) :
    (make m t).cellNodes.size = m.numCells := by
  simp only [Topology.numCells, Mesh.numCells] at ht
  simp [make, Mesh.numCells, ht]

/-- The nodes of a cell: its vertices, then `nv + f` for its facets `f` in local order. -/
theorem make_cellNodes {c : Nat} (hc : c < m.numCells) (ht : t.numCells = m.numCells) :
    (make m t).cellNodes[c]! = #[(m.cellVertices c).a, (m.cellVertices c).b,
      (m.cellVertices c).c, m.numVertices + (t.cellFacets[c]!)[0]!,
      m.numVertices + (t.cellFacets[c]!)[1]!, m.numVertices + (t.cellFacets[c]!)[2]!] := by
  have hf : c < t.cellFacets.size := by
    rw [show t.cellFacets.size = t.numCells from rfl, ht]
    exact hc
  have hm : c < m.cells.size := hc
  rw [getElem!_pos _ c (by rw [make_cellNodes_size ht]; exact hc)]
  simp [make, Mesh.cellVertices, Array.getD_eq_getD_getElem?, hm, hf, getElem!_pos]

/-- The nodes of a facet: its vertices and its midpoint node. -/
theorem make_facetNodesOf {f : Nat} (hf : f < t.numFacets) :
    (make m t).facetNodesOf f = ((t.facet f).1, (t.facet f).2, m.numVertices + f) := by
  have hf' : f < t.facets.size := hf
  simp [facetNodesOf, make, Topology.facet, Array.getD_eq_getD_getElem?, hf']

theorem make_numNodes : (make m t).numNodes = m.numVertices + t.numFacets := by
  simp [numNodes, make, Topology.numFacets]

/-- Node `j < 3` of a cell is its local vertex `j`. -/
theorem make_cellNode_vertex {c j : Nat} (hc : c < m.numCells) (ht : t.numCells = m.numCells)
    (hj : j < 3) : ((make m t).cellNodes[c]!)[j]! = (m.cellVertices c).get j := by
  rw [make_cellNodes hc ht]
  obtain rfl | rfl | rfl : j = 0 ∨ j = 1 ∨ j = 2 := by omega
  all_goals simp [CellVertices.get]

/-- Node `3 + j` of a cell is the node of its local facet `j`. -/
theorem make_cellNode_facet {c j : Nat} (hc : c < m.numCells) (ht : t.numCells = m.numCells)
    (hj : j < 3) :
    ((make m t).cellNodes[c]!)[3 + j]! = m.numVertices + (t.cellFacets[c]!)[j]! := by
  rw [make_cellNodes hc ht]
  obtain rfl | rfl | rfl : j = 0 ∨ j = 1 ∨ j = 2 := by omega
  all_goals simp

end Numbering

section Dofs

/-- Each node gives its two degrees of freedom `2 n`, `2 n + 1`, in the order of the nodes. -/
theorem foldl_push_dofs (l : List Nat) (acc : Array Nat) :
    (l.foldl (fun acc n => (acc.push (2 * n)).push (2 * n + 1)) acc).toList =
      acc.toList ++ l.flatMap fun n => [2 * n, 2 * n + 1] := by
  induction l generalizing acc with
  | nil => simp
  | cons n l ih => simp [ih]

/-- The degrees of freedom of a cell are those of its nodes, component by component. -/
theorem cellDofs_vectorP2 {s : VectorP2Space} {c : Nat} (hc : c < s.cellNodes.size) :
    ∃ d, (FunctionSpace.vectorP2 s).cellDofs c 12 = .ok d ∧
      d.toList = (s.cellNodes[c]!).toList.flatMap fun n => [2 * n, 2 * n + 1] := by
  refine ⟨_, ?_, foldl_push_dofs _ #[]⟩
  simp [FunctionSpace.cellDofs, FunctionSpace.localDim, Violation.requireEq, Violation.get, hc,
    bind, Except.bind, pure, Except.pure, getElem!_pos, ← Array.foldl_toList]

/-- Distinct nodes have distinct degrees of freedom. -/
theorem nodup_flatMap_dofs {l : List Nat} (hl : l.Nodup) :
    (l.flatMap fun n => [2 * n, 2 * n + 1]).Nodup := by
  rw [List.nodup_flatMap]
  refine ⟨fun n _ => by simp, hl.imp fun {a b} hab => ?_⟩
  simp only [Function.onFun, List.disjoint_left, List.mem_cons, List.not_mem_nil, or_false]
  rintro x (rfl | rfl) <;> omega

/-- Entry `2 a + l` of the dofs of a list of nodes is component `l` of node `a`. -/
theorem getElem!_flatMap_dofs : ∀ (l : List Nat) {a c : Nat}, a < l.length → c < 2 →
    (l.flatMap fun n => [2 * n, 2 * n + 1])[2 * a + c]! = 2 * l[a]! + c
  | [], a, _, ha, _ => absurd ha (Nat.not_lt_zero a)
  | n :: l, 0, c, _, hc => by
    obtain rfl | rfl : c = 0 ∨ c = 1 := by omega
    all_goals simp
  | n :: l, a + 1, c, ha, hc => by
    have h := getElem!_flatMap_dofs l (a := a) (by simpa using ha) hc
    rw [List.flatMap_cons, show 2 * (a + 1) + c = (2 * a + c) + 2 by omega]
    simp_all

end Dofs

end VectorP2Space

namespace Mesh

variable {ρ : Type}

/-- The local vertices of a cell of a mesh whose cells name its vertices are vertices. -/
theorem cellVertex_lt {m : Mesh ρ} {c : Nat} (hc : c < m.numCells)
    (j : Nat) : (m.cellVertices c).get j < m.numVertices :=
  m.cells_lt _ (cellVertices_mem hc) _ ((m.cellVertices c).get_mem j)

variable {K : Type} [Field K] [LinearOrder K] (m : Mesh (Exact K)) (c : Nat)

/-- The reference map of a cell sends reference corner `j` to local vertex `j`. -/
theorem toPhysical_refVertex {j : Nat} (hj : j < 3) :
    (m.cellTriangle c).toPhysical ((p2Nodes : Array (Vec2 (Exact K)))[j]!) =
      m.vertex ((m.cellVertices c).get j) := by
  obtain rfl | rfl | rfl : j = 0 ∨ j = 1 ∨ j = 2 := by omega
  all_goals refine Vec2.ext_val ?_ ?_ <;> simp [cellTriangle, p2Nodes, CellVertices.get]

variable [IsStrictOrderedRing K]

/-- The reference map of a cell sends reference node `3 + j` to the midpoint of the edge from
local vertex `j` to local vertex `j + 1 (mod 3)`. -/
theorem toPhysical_refMidpoint {j : Nat} (hj : j < 3) :
    ((m.cellTriangle c).toPhysical ((p2Nodes : Array (Vec2 (Exact K)))[3 + j]!)).x.val =
        ((m.vertex ((m.cellVertices c).get j)).x.val +
          (m.vertex ((m.cellVertices c).get ((j + 1) % 3))).x.val) / 2 ∧
      ((m.cellTriangle c).toPhysical ((p2Nodes : Array (Vec2 (Exact K)))[3 + j]!)).y.val =
        ((m.vertex ((m.cellVertices c).get j)).y.val +
          (m.vertex ((m.cellVertices c).get ((j + 1) % 3))).y.val) / 2 := by
  obtain rfl | rfl | rfl : j = 0 ∨ j = 1 ∨ j = 2 := by omega
  all_goals constructor <;> simp [cellTriangle, p2Nodes, CellVertices.get] <;> ring

end Mesh

namespace Topology.Incidence

variable {ρ : Type} {m : Mesh ρ} {t : Topology}

/-- Local facet `k` of a cell is a facet of the topology, the one of the edge `k`. -/
theorem facet_cellFacet (hD : t.Incidence m) {c k : Nat} (hc : c < m.numCells) (hk : k < 3) :
    (t.cellFacets[c]!)[k]! < t.numFacets ∧ t.facet ((t.cellFacets[c]!)[k]!) = m.edgeKey c k := by
  have h := (hD.cellFacets_edge c hc).2 k hk
  refine ⟨(Array.getElem?_eq_some_iff.1 h).1, ?_⟩
  simp [Topology.facet, Array.getD_eq_getD_getElem?, h]

/-- The cells of a facet have it among their local facets. -/
theorem exists_local_facet (hD : t.Incidence m) {f c : Nat} (hf : f < t.numFacets)
    (hc : c ∈ (t.facetCells[f]!).toList) :
    c < m.numCells ∧ ∃ k < 3, (t.cellFacets[c]!)[k]! = f := by
  rw [hD.facetCells_eq f hf] at hc
  simp only [List.mem_flatMap, List.mem_range, List.mem_replicate] at hc
  obtain ⟨c, hc, hpos, rfl⟩ := hc
  obtain ⟨hsize, -⟩ := hD.cellFacets_edge c hc
  have hmem : f ∈ (t.cellFacets[c]!).toList := by
    rw [← Array.count_toList] at hpos
    exact List.count_pos_iff.1 (Nat.pos_of_ne_zero hpos)
  obtain ⟨k, hk, hkf⟩ := List.getElem_of_mem hmem
  refine ⟨hc, k, by simpa [hsize] using hk, ?_⟩
  rw [getElem!_pos _ k (by simpa using hk)]
  simpa using hkf

/-- Every facet is a local facet of some cell. -/
theorem exists_cellFacet_eq (hD : t.Incidence m) {f : Nat} (hf : f < t.numFacets) :
    ∃ c < m.numCells, ∃ k < 3, (t.cellFacets[c]!)[k]! = f := by
  have hf' : f < t.facets.size := hf
  have hmem : t.facets[f] ∈ m.edgeKeys := by
    have h := Array.getElem_mem_toList hf'
    rw [hD.facets_eq, List.mem_eraseDups] at h
    exact h
  obtain ⟨c, hc, k, hk, hkey⟩ := Mesh.mem_edgeKeys.1 hmem
  refine ⟨c, hc, k, hk, ?_⟩
  -- the facet of the edge is listed once
  have hg := (hD.cellFacets_edge c hc).2 k hk
  rw [hkey] at hg
  obtain ⟨hg', hgf⟩ := Array.getElem?_eq_some_iff.1 hg
  rw [← Array.getElem_toList, ← Array.getElem_toList (h := hf')] at hgf
  exact (List.Nodup.getElem_inj_iff hD.facets_nodup).1 hgf

/-- The facets of a cell with distinct vertices are three distinct facets. -/
theorem cellFacet_injective (hD : t.Incidence m) (hd : m.DistinctCellVertices) {c k l : Nat}
    (hc : c < m.numCells) (hk : k < 3) (hl : l < 3)
    (h : (t.cellFacets[c]!)[k]! = (t.cellFacets[c]!)[l]!) : k = l := by
  refine Mesh.edgeKey_injective hd hc hk hl ?_
  rw [← (hD.facet_cellFacet hc hk).2, ← (hD.facet_cellFacet hc hl).2, h]

end Topology.Incidence

namespace VectorP2Space

section Nodes

variable {ρ : Type} {m : Mesh ρ} {t : Topology}

/-- The nodes of a cell are six distinct nodes of the space. -/
theorem make_cellNodes_nodup (hd : m.DistinctCellVertices) (hD : t.Incidence m) {c : Nat}
    (hc : c < m.numCells) :
    ((make m t).cellNodes[c]!).toList.Nodup ∧
      ∀ n ∈ ((make m t).cellNodes[c]!).toList, n < (make m t).numNodes := by
  have hv : ∀ v ∈ (m.cellVertices c).toList, v < m.numVertices :=
    m.cells_lt _ (Mesh.cellVertices_mem hc)
  have hn := hd _ (Mesh.cellVertices_mem hc)
  simp only [CellVertices.toList, List.mem_cons, List.not_mem_nil, or_false, forall_eq_or_imp,
    forall_eq, List.nodup_cons, not_or, List.nodup_nil, and_true] at hv hn
  obtain ⟨h0, -⟩ := hD.facet_cellFacet hc (k := 0) (by omega)
  obtain ⟨h1, -⟩ := hD.facet_cellFacet hc (k := 1) (by omega)
  obtain ⟨h2, -⟩ := hD.facet_cellFacet hc (k := 2) (by omega)
  have h01 := mt (hD.cellFacet_injective hd hc (k := 0) (l := 1) (by omega) (by omega)) (by omega)
  have h02 := mt (hD.cellFacet_injective hd hc (k := 0) (l := 2) (by omega) (by omega)) (by omega)
  have h12 := mt (hD.cellFacet_injective hd hc (k := 1) (l := 2) (by omega) (by omega)) (by omega)
  rw [make_cellNodes hc hD.numCells_eq, make_numNodes]
  simp only [List.nodup_cons, List.mem_cons, List.not_mem_nil, or_false, not_or,
    not_false_eq_true, List.nodup_nil, and_true, forall_eq_or_imp, forall_eq]
  omega

/-- The six nodes of a cell are nodes of the space. -/
theorem make_cellNode_lt (hD : t.Incidence m) {c k : Nat} (hc : c < m.numCells) (hk : k < 6) :
    ((make m t).cellNodes[c]!)[k]! < (make m t).numNodes := by
  rw [make_numNodes]
  rcases Nat.lt_or_ge k 3 with hk3 | hk3
  · rw [make_cellNode_vertex hc hD.numCells_eq hk3]
    have := Mesh.cellVertex_lt hc k
    omega
  · obtain ⟨j, rfl⟩ : ∃ j, k = 3 + j := ⟨k - 3, by omega⟩
    rw [make_cellNode_facet hc hD.numCells_eq (by omega)]
    have := (hD.facet_cellFacet hc (k := j) (by omega)).1
    omega

/-- The twelve degrees of freedom of a cell: `2 n + l` for its nodes `n` in order and the
components `l`, distinct and below `numDofs`. -/
theorem make_cellDofs (hd : m.DistinctCellVertices) (hD : t.Incidence m) {c : Nat}
    (hc : c < m.numCells) :
    ∃ d, (FunctionSpace.vectorP2 (make m t)).cellDofs c 12 = .ok d ∧
      d.toList = ((make m t).cellNodes[c]!).toList.flatMap (fun n => [2 * n, 2 * n + 1]) ∧
      d.toList.Nodup ∧ ∀ i ∈ d.toList, i < (FunctionSpace.vectorP2 (make m t)).numDofs := by
  obtain ⟨hnodup, hlt⟩ := make_cellNodes_nodup hd hD hc
  obtain ⟨d, hd, hlist⟩ := cellDofs_vectorP2 (s := make m t) (c := c)
    (by rw [make_cellNodes_size hD.numCells_eq]; exact hc)
  refine ⟨d, hd, hlist, hlist ▸ nodup_flatMap_dofs hnodup, fun i hi => ?_⟩
  rw [hlist, List.mem_flatMap] at hi
  obtain ⟨n, hn, hi⟩ := hi
  have := hlt n hn
  simp only [List.mem_cons, List.not_mem_nil, or_false] at hi
  simp only [FunctionSpace.numDofs]
  omega

/-- Local dof `2 a + l` of a cell is component `l` of its node `a`. -/
theorem make_dofsOf (hd : m.DistinctCellVertices) (hD : t.Incidence m)
    {c : Nat} (hc : c < m.numCells) {a l : Nat} (ha : a < 6) (hl : l < 2) :
    ((FunctionSpace.vectorP2 (make m t)).dofsOf c)[2 * a + l]! =
      2 * ((make m t).cellNodes[c]!)[a]! + l := by
  obtain ⟨d, hdofs, hlist, -, -⟩ := make_cellDofs hd hD hc
  have hof : (FunctionSpace.vectorP2 (make m t)).dofsOf c = d := by
    rw [FunctionSpace.dofsOf, show FunctionSpace.localDim _ = 12 from rfl, hdofs]
  have hsize : ((make m t).cellNodes[c]!).toList.length = 6 := by
    rw [make_cellNodes hc hD.numCells_eq]
    rfl
  rw [hof, ← Array.getElem!_toList, hlist, getElem!_flatMap_dofs _ (hsize ▸ ha) hl,
    Array.getElem!_toList]

/-- Both components of every node of a cell are dofs of the cell. -/
theorem make_node_mem_dofsOf (hd : m.DistinctCellVertices)
    (hD : t.Incidence m) {c : Nat} (hc : c < m.numCells) {a l : Nat} (ha : a < 6) (hl : l < 2) :
    2 * ((make m t).cellNodes[c]!)[a]! + l ∈
      ((FunctionSpace.vectorP2 (make m t)).dofsOf c).toList := by
  obtain ⟨d, hdofs, hlist, -, -⟩ := make_cellDofs hd hD hc
  have hof : (FunctionSpace.vectorP2 (make m t)).dofsOf c = d := by
    rw [FunctionSpace.dofsOf, show FunctionSpace.localDim _ = 12 from rfl, hdofs]
  have hsize : d.size = 12 := by
    rw [← Array.length_toList, hlist, make_cellNodes hc hD.numCells_eq]
    rfl
  rw [← make_dofsOf hd hD hc ha hl, hof]
  exact getElem!_mem_toList (by omega)

/-- Both components of the three nodes of a facet are dofs of a cell of the facet. -/
theorem make_facetNode_mem_dofsOf (hd : m.DistinctCellVertices)
    (hD : t.Incidence m) {f : Nat} (hf : f < t.numFacets) {node : Nat}
    (hn : node ∈ [(t.facet f).1, (t.facet f).2, m.numVertices + f]) {l : Nat} (hl : l < 2) :
    ∃ c < m.numCells, 2 * node + l ∈ ((FunctionSpace.vectorP2 (make m t)).dofsOf c).toList := by
  obtain ⟨c, hc, k, hk, hck⟩ := hD.exists_cellFacet_eq hf
  have hkey := (hD.facet_cellFacet hc hk).2
  rw [hck] at hkey
  -- the node is a corner of the local facet `k`, or its node `3 + k`
  have hnode : ∃ a < 6, ((make m t).cellNodes[c]!)[a]! = node := by
    have hv : ∀ j < 3, ((make m t).cellNodes[c]!)[j]! = (m.cellVertices c).get j :=
      fun j hj => make_cellNode_vertex hc hD.numCells_eq hj
    simp only [List.mem_cons, List.not_mem_nil, or_false, hkey, Mesh.edgeKey] at hn
    rcases hn with rfl | rfl | rfl
    · rcases min_choice ((m.cellVertices c).get k) ((m.cellVertices c).get ((k + 1) % 3)) with
        h | h <;> rw [h]
      · exact ⟨k, by omega, hv k hk⟩
      · exact ⟨(k + 1) % 3, by omega, hv _ (Nat.mod_lt _ (by omega))⟩
    · rcases max_choice ((m.cellVertices c).get k) ((m.cellVertices c).get ((k + 1) % 3)) with
        h | h <;> rw [h]
      · exact ⟨k, by omega, hv k hk⟩
      · exact ⟨(k + 1) % 3, by omega, hv _ (Nat.mod_lt _ (by omega))⟩
    · exact ⟨3 + k, by omega, by rw [make_cellNode_facet hc hD.numCells_eq hk, hck]⟩
  obtain ⟨a, ha, rfl⟩ := hnode
  exact ⟨c, hc, make_node_mem_dofsOf hd hD hc ha hl⟩

end Nodes

section Exact

variable {K : Type} [Field K] [LinearOrder K] {m : Mesh (Exact K)} {t : Topology}

/-- A vertex keeps its position as a node. -/
theorem nodeCoordinates_vertex (s : VectorP2Space) {v : Nat} (hv : v < m.numVertices) :
    (s.nodeCoordinates m)[v]! = m.vertex v := by
  have hv' : v < m.vertices.size := hv
  unfold nodeCoordinates
  rw [getElem!_pos _ v (by simp only [Array.size_append]; omega), Array.getElem_append_left hv']
  simp [Mesh.vertex, Array.getD_eq_getD_getElem?, hv']

/-- The node of a facet sits at the midpoint of the facet. -/
theorem nodeCoordinates_facetNode {f : Nat} (hf : f < t.numFacets) :
    ((make m t).nodeCoordinates m)[m.numVertices + f]! =
      (m.vertex (t.facet f).1 + m.vertex (t.facet f).2).scale
        (Scalar.one / (Scalar.one + Scalar.one)) := by
  have hf' : f < t.facets.size := hf
  simp [nodeCoordinates, make, Mesh.numVertices, Topology.facet, Array.getD_eq_getD_getElem?, hf',
    getElem!_pos, Array.getElem_append_right]

/-- The node of local facet `j` of a cell sits at the midpoint of the edge from local vertex `j`
to local vertex `j + 1 (mod 3)`, whichever of the two the facet lists first. -/
theorem nodeCoordinates_edgeNode (hD : t.Incidence m) {c j : Nat} (hc : c < m.numCells)
    (hj : j < 3) :
    (((make m t).nodeCoordinates m)[m.numVertices + (t.cellFacets[c]!)[j]!]!).x.val =
        ((m.vertex ((m.cellVertices c).get j)).x.val +
          (m.vertex ((m.cellVertices c).get ((j + 1) % 3))).x.val) / 2 ∧
      (((make m t).nodeCoordinates m)[m.numVertices + (t.cellFacets[c]!)[j]!]!).y.val =
        ((m.vertex ((m.cellVertices c).get j)).y.val +
          (m.vertex ((m.cellVertices c).get ((j + 1) % 3))).y.val) / 2 := by
  obtain ⟨hf, hkey⟩ := hD.facet_cellFacet hc hj
  rw [nodeCoordinates_facetNode hf, hkey]
  unfold Mesh.edgeKey
  -- the facet lists the vertices of the edge sorted; the midpoint does not see the order
  rcases le_total ((m.cellVertices c).get j) ((m.cellVertices c).get ((j + 1) % 3)) with h | h
  · simp only [min_eq_left h, max_eq_right h]
    constructor <;> simp [Vec2.scale] <;> ring
  · simp only [min_eq_right h, max_eq_left h]
    constructor <;> simp [Vec2.scale] <;> ring

variable [IsStrictOrderedRing K]

/-- Every node of a cell sits where the reference map of the cell sends the matching node of the
reference element: the vertices at the corners, the facet nodes at the edge midpoints. -/
theorem nodeCoordinates_cellNode (hD : t.Incidence m) {c k : Nat} (hc : c < m.numCells)
    (hk : k < 6) :
    ((make m t).nodeCoordinates m)[((make m t).cellNodes[c]!)[k]!]! =
      (m.cellTriangle c).toPhysical ((p2Nodes : Array (Vec2 (Exact K)))[k]!) := by
  rcases Nat.lt_or_ge k 3 with hk3 | hk3
  · rw [make_cellNode_vertex hc hD.numCells_eq hk3, Mesh.toPhysical_refVertex m c hk3,
      nodeCoordinates_vertex _ (Mesh.cellVertex_lt hc k)]
  · obtain ⟨j, rfl⟩ : ∃ j, k = 3 + j := ⟨k - 3, by omega⟩
    rw [make_cellNode_facet hc hD.numCells_eq (by omega)]
    obtain ⟨hx, hy⟩ := nodeCoordinates_edgeNode hD hc (j := j) (by omega)
    obtain ⟨hx', hy'⟩ := Mesh.toPhysical_refMidpoint m c (j := j) (by omega)
    exact Vec2.ext_val (hx.trans hx'.symm) (hy.trans hy'.symm)

omit [IsStrictOrderedRing K] in
/-- The expansion on a cell of six nodes, at a point with reference point `ξ`: component `l` is
`Σₖ u_{2 nₖ + l} φₖ(ξ)` over the nodes `nₖ` of the cell. -/
theorem cellValue?_eq (s : VectorP2Space) (U : Array (Exact K)) {c : Nat} {x xi : Vec2 (Exact K)}
    (hsize : (s.cellNodes[c]!).size = 6) (hxi : (m.cellTriangle c).toReference? x = some xi) :
    s.cellValue? m U c x = some
      ⟨Exact.mk (∑ k ∈ Finset.range 6, U[2 * (s.cellNodes[c]!)[k]!]!.val * ((p2Values xi)[k]!).val),
        Exact.mk (∑ k ∈ Finset.range 6,
          U[2 * (s.cellNodes[c]!)[k]! + 1]!.val * ((p2Values xi)[k]!).val)⟩ := by
  unfold cellValue?
  rw [hxi]
  dsimp only [bind, Option.bind, pure]
  rw [hsize, show List.range 6 = [0, 1, 2, 3, 4, 5] from rfl]
  simp only [List.foldl_cons, List.foldl_nil]
  congr 1
  refine Vec2.ext_val ?_ ?_ <;> simp [Finset.sum_range_succ, Vec2.zero]

/-- The reference point at parameter `τ` on reference edge `k`, from corner `k` to corner
`k + 1 (mod 3)`. -/
def edgePoint (k : Nat) (τ : K) : Vec2 (Exact K) :=
  if k = 0 then ⟨Exact.mk τ, Exact.mk 0⟩
  else if k = 1 then ⟨Exact.mk (1 - τ), Exact.mk τ⟩
  else ⟨Exact.mk 0, Exact.mk (1 - τ)⟩

omit [IsStrictOrderedRing K] in
/-- The reference map of a cell sends reference edge `k` onto the edge from local vertex `k` to
local vertex `k + 1 (mod 3)`, with the same parameter. -/
theorem toPhysical_edgePoint (c : Nat) {k : Nat} (hk : k < 3) (τ : K) :
    ((m.cellTriangle c).toPhysical (edgePoint k τ)).x.val =
        (1 - τ) * (m.vertex ((m.cellVertices c).get k)).x.val +
          τ * (m.vertex ((m.cellVertices c).get ((k + 1) % 3))).x.val ∧
      ((m.cellTriangle c).toPhysical (edgePoint k τ)).y.val =
        (1 - τ) * (m.vertex ((m.cellVertices c).get k)).y.val +
          τ * (m.vertex ((m.cellVertices c).get ((k + 1) % 3))).y.val := by
  obtain rfl | rfl | rfl : k = 0 ∨ k = 1 ∨ k = 2 := by omega
  all_goals constructor <;> simp [edgePoint, Mesh.cellTriangle, CellVertices.get] <;> ring

omit [IsStrictOrderedRing K] in
/-- On reference edge `k` the shape functions of the other corner and of the other two midpoints
vanish, and those of the two ends and of the midpoint are the quadratic functions of the edge. -/
theorem sum_p2Values_edgePoint (w : Nat → K) {k : Nat} (hk : k < 3) (τ : K) :
    ∑ a ∈ Finset.range 6, w a * ((p2Values (edgePoint k τ))[a]!).val =
      w k * ((1 - τ) * (1 - 2 * τ)) + w ((k + 1) % 3) * (τ * (2 * τ - 1)) +
        w (3 + k) * (4 * τ * (1 - τ)) := by
  obtain rfl | rfl | rfl : k = 0 ∨ k = 1 ∨ k = 2 := by omega
  all_goals simp [Finset.sum_range_succ, p2Values, refBarycentric, edgePoint, floatValue_two,
    floatValue_four]
  all_goals ring

/-- The point of facet `f` at `s ∈ [-1, 1]`, placed as the facet load places its quadrature
points: `x_a (1 - s)/2 + x_b (1 + s)/2` for the vertices `(a, b)` of the facet. -/
noncomputable def facetPoint (m : Mesh (Exact K)) (t : Topology) (f : Nat) (s : K) : Vec2 (Exact K) :=
  let half : Exact K := Scalar.one / (Scalar.one + Scalar.one)
  (m.vertex (t.facet f).1).scale (half * (Scalar.one - Exact.mk s)) +
    (m.vertex (t.facet f).2).scale (half * (Scalar.one + Exact.mk s))

/-- The expansion on the facet element through the nodes `(a, b, n)` of a facet at `s ∈ [-1, 1]`:
the values at the nodes weighted by the quadratic functions of the segment. -/
noncomputable def facetTrace (U : Array (Exact K)) (nodes : Nat × Nat × Nat) (s : K) : Vec2 (Exact K) :=
  let phi := segmentValues (Exact.mk s)
  ⟨U[2 * nodes.1]! * phi[0]! + U[2 * nodes.2.1]! * phi[1]! + U[2 * nodes.2.2]! * phi[2]!,
    U[2 * nodes.1 + 1]! * phi[0]! + U[2 * nodes.2.1 + 1]! * phi[1]! +
      U[2 * nodes.2.2 + 1]! * phi[2]!⟩

/-- On a facet, the expansion on a cell of nonzero determinant is the expansion on the facet
element through the nodes of the facet, whichever way the cell runs along the facet. -/
theorem cellValue?_on_facet (hD : t.Incidence m) (U : Array (Exact K)) {c k : Nat}
    (hc : c < m.numCells) (hk : k < 3) (hdet : (m.cellTriangle c).determinant.val ≠ 0) (s : K) :
    (make m t).cellValue? m U c (facetPoint m t ((t.cellFacets[c]!)[k]!) s) =
      some (facetTrace U ((make m t).facetNodesOf ((t.cellFacets[c]!)[k]!)) s) := by
  obtain ⟨hf, hkey⟩ := hD.facet_cellFacet hc hk
  have hsize : ((make m t).cellNodes[c]!).size = 6 := by
    rw [make_cellNodes hc hD.numCells_eq]
    rfl
  have hk1 : (k + 1) % 3 < 3 := Nat.mod_lt _ (by omega)
  -- the reference point of the facet point is on edge `k`, at `(1 + s)/2` from corner `k` when
  -- the facet lists local vertex `k` first, and at `(1 - s)/2` otherwise
  obtain ⟨τ, hpt, hw, h4⟩ : ∃ τ : K,
      facetPoint m t ((t.cellFacets[c]!)[k]!) s = (m.cellTriangle c).toPhysical (edgePoint k τ) ∧
      (∀ g : Nat → K, g ((m.cellVertices c).get k) * ((1 - τ) * (1 - 2 * τ)) +
          g ((m.cellVertices c).get ((k + 1) % 3)) * (τ * (2 * τ - 1)) =
        g (t.facet ((t.cellFacets[c]!)[k]!)).1 * (s * (s - 1) / 2) +
          g (t.facet ((t.cellFacets[c]!)[k]!)).2 * (s * (s + 1) / 2)) ∧
      4 * τ * (1 - τ) = 1 - s * s := by
    obtain ⟨hx, hy⟩ := toPhysical_edgePoint (m := m) c hk ((1 + s) / 2)
    obtain ⟨hx', hy'⟩ := toPhysical_edgePoint (m := m) c hk ((1 - s) / 2)
    simp only [facetPoint, hkey, Mesh.edgeKey]
    rcases le_total ((m.cellVertices c).get k) ((m.cellVertices c).get ((k + 1) % 3)) with h | h
    · simp only [min_eq_left h, max_eq_right h]
      refine ⟨(1 + s) / 2, Vec2.ext_val ?_ ?_, fun g => by ring, by ring⟩
      · rw [hx]; simp [Vec2.scale]; ring
      · rw [hy]; simp [Vec2.scale]; ring
    · simp only [min_eq_right h, max_eq_left h]
      refine ⟨(1 - s) / 2, Vec2.ext_val ?_ ?_, fun g => by ring, by ring⟩
      · rw [hx']; simp [Vec2.scale]; ring
      · rw [hy']; simp [Vec2.scale]; ring
  have hx := hw fun n => U[2 * n]!.val
  have hy := hw fun n => U[2 * n + 1]!.val
  rw [hpt, cellValue?_eq _ U hsize ((m.cellTriangle c).toReference?_toPhysical hdet _),
    make_facetNodesOf hf]
  congr 1
  refine Vec2.ext_val ?_ ?_
  · rw [Exact.val_mk, sum_p2Values_edgePoint _ hk, make_cellNode_vertex hc hD.numCells_eq hk,
      make_cellNode_vertex hc hD.numCells_eq hk1, make_cellNode_facet hc hD.numCells_eq hk]
    simp [facetTrace, segmentValues]
    linear_combination hx + U[2 * (m.numVertices + (t.cellFacets[c]!)[k]!)]!.val * h4
  · rw [Exact.val_mk, sum_p2Values_edgePoint _ hk, make_cellNode_vertex hc hD.numCells_eq hk,
      make_cellNode_vertex hc hD.numCells_eq hk1, make_cellNode_facet hc hD.numCells_eq hk]
    simp [facetTrace, segmentValues]
    linear_combination hy + U[2 * (m.numVertices + (t.cellFacets[c]!)[k]!) + 1]!.val * h4

/-- The cells of a facet agree on it: for every field, two cells of nonzero determinant that share
a facet have the same expansion at every point of the facet. -/
theorem cellValue?_continuous (hD : t.Incidence m) (U : Array (Exact K)) {f c₁ c₂ : Nat}
    (hf : f < t.numFacets) (h₁ : c₁ ∈ (t.facetCells[f]!).toList)
    (h₂ : c₂ ∈ (t.facetCells[f]!).toList) (hdet₁ : (m.cellTriangle c₁).determinant.val ≠ 0)
    (hdet₂ : (m.cellTriangle c₂).determinant.val ≠ 0) (s : K) :
    (make m t).cellValue? m U c₁ (facetPoint m t f s) =
      (make m t).cellValue? m U c₂ (facetPoint m t f s) := by
  obtain ⟨hc₁, k₁, hk₁, e₁⟩ := hD.exists_local_facet hf h₁
  obtain ⟨hc₂, k₂, hk₂, e₂⟩ := hD.exists_local_facet hf h₂
  have v₁ := cellValue?_on_facet hD U hc₁ hk₁ hdet₁ s
  have v₂ := cellValue?_on_facet hD U hc₂ hk₂ hdet₂ s
  rw [e₁] at v₁
  rw [e₂] at v₂
  rw [v₁, v₂]

end Exact

section Conforming

variable {K : Type} [Field K] [LinearOrder K] [IsStrictOrderedRing K]

/-- What the quadratic space `s` of a mesh `m` with topology `t` is, read in exact arithmetic:
how it numbers nodes and degrees of freedom, where its nodes sit, and that its fields are
continuous across the facets. -/
structure Conforms (m : Mesh (Exact K)) (t : Topology) (s : VectorP2Space) : Prop where
  /-- The nodes of a cell: its vertices, then the nodes of the facets of its edges
  `(0, 1), (1, 2), (2, 0)`. -/
  cellNodes : ∀ c < m.numCells, ∃ f₀ f₁ f₂, s.cellNodes[c]! = #[(m.cellVertices c).a,
      (m.cellVertices c).b, (m.cellVertices c).c, m.numVertices + f₀, m.numVertices + f₁,
      m.numVertices + f₂] ∧ t.facets[f₀]? = some (m.edgeKey c 0) ∧
    t.facets[f₁]? = some (m.edgeKey c 1) ∧ t.facets[f₂]? = some (m.edgeKey c 2)
  /-- The nodes of a facet: its sorted vertex pair, then its own node. -/
  facetNodes : ∀ f < t.numFacets,
    s.facetNodesOf f = ((t.facet f).1, (t.facet f).2, m.numVertices + f)
  numDofs : (FunctionSpace.vectorP2 s).numDofs = 2 * (m.numVertices + t.numFacets)
  /-- The twelve degrees of freedom of a cell: `2 n, 2 n + 1` for its nodes `n` in order, all
  distinct and in range. -/
  cellDofs : ∀ c < m.numCells, ∃ d, (FunctionSpace.vectorP2 s).cellDofs c 12 = .ok d ∧
    d.toList = (s.cellNodes[c]!).toList.flatMap (fun n => [2 * n, 2 * n + 1]) ∧ d.toList.Nodup ∧
    ∀ i ∈ d.toList, i < (FunctionSpace.vectorP2 s).numDofs
  /-- Node `k` of a cell sits where the reference map of the cell sends reference node `k`. -/
  nodeCoordinates : ∀ c < m.numCells, ∀ k < 6, (s.nodeCoordinates m)[(s.cellNodes[c]!)[k]!]! =
    (m.cellTriangle c).toPhysical ((p2Nodes : Array (Vec2 (Exact K)))[k]!)
  /-- Two cells of nonzero determinant that share a facet agree at every point of it. -/
  continuous : ∀ (U : Array (Exact K)), ∀ f < t.numFacets, ∀ c₁ ∈ (t.facetCells[f]!).toList,
    ∀ c₂ ∈ (t.facetCells[f]!).toList, (m.cellTriangle c₁).determinant.val ≠ 0 →
    (m.cellTriangle c₂).determinant.val ≠ 0 → ∀ σ : K,
    s.cellValue? m U c₁ (facetPoint m t f σ) = s.cellValue? m U c₂ (facetPoint m t f σ)

/-- The quadratic space of a mesh whose cells name three distinct vertices of it numbers the
nodes of a cell as the reference element does, gives each cell twelve distinct degrees of
freedom in range, puts every node at the image of its reference node, and its fields are
continuous across facets. -/
theorem make_conforms (m : Mesh (Exact K)) (hd : m.DistinctCellVertices) :
    Conforms m (Topology.ofMesh m) (make m (Topology.ofMesh m)) := by
  have hD := Topology.incidence_ofMesh m
  refine ⟨fun c hc => ?_, fun f hf => make_facetNodesOf hf, ?_,
    fun c hc => make_cellDofs hd hD hc, fun c hc k hk => nodeCoordinates_cellNode hD hc hk,
    fun U f hf c₁ h₁ c₂ h₂ hdet₁ hdet₂ σ => cellValue?_continuous hD U hf h₁ h₂ hdet₁ hdet₂ σ⟩
  · have h := (hD.cellFacets_edge c hc).2
    exact ⟨_, _, _, make_cellNodes hc hD.numCells_eq, h 0 (by omega), h 1 (by omega),
      h 2 (by omega)⟩
  · simp [FunctionSpace.numDofs, make_numNodes]

/-- The unit square cut along its diagonal, over the rationals: the two cells run along the
diagonal in opposite directions. -/
def unitSquare : Mesh (Exact ℚ) :=
  ⟨#[⟨Exact.mk 0, Exact.mk 0⟩, ⟨Exact.mk 1, Exact.mk 0⟩, ⟨Exact.mk 1, Exact.mk 1⟩,
    ⟨Exact.mk 0, Exact.mk 1⟩], #[⟨0, 1, 2⟩, ⟨0, 2, 3⟩], by decide⟩

theorem make_conforms_on_unitSquare : unitSquare.DistinctCellVertices ∧
    Conforms unitSquare (Topology.ofMesh unitSquare) (make unitSquare (Topology.ofMesh unitSquare)) :=
  ⟨by decide, make_conforms unitSquare (by decide)⟩

end Conforming

end VectorP2Space

/-- The degrees of freedom of the quadratic space of a mesh whose cells name three distinct
vertices of it are in range, as assembly asks of its spaces. -/
theorem FunctionSpace.vectorP2_dofsInRange {ρ : Type} {m : Mesh ρ} (hd : m.DistinctCellVertices) :
    (FunctionSpace.vectorP2 (VectorP2Space.make m (Topology.ofMesh m))).DofsInRange := by
  have hD := Topology.incidence_ofMesh m
  intro c hc
  have hc' : c < m.numCells := by
    simpa [FunctionSpace.numCells, VectorP2Space.make_cellNodes_size hD.numCells_eq] using hc
  obtain ⟨d, hdofs, hlist, -, hlt⟩ := VectorP2Space.make_cellDofs hd hD hc'
  have hof : (FunctionSpace.vectorP2 (VectorP2Space.make m (Topology.ofMesh m))).dofsOf c = d := by
    rw [FunctionSpace.dofsOf, show FunctionSpace.localDim _ = 12 from rfl, hdofs]
  rw [hof]
  refine ⟨?_, hlt⟩
  rw [← Array.length_toList, hlist, VectorP2Space.make_cellNodes hc' hD.numCells_eq]
  rfl

end MixedFem
