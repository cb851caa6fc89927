import MixedFem.Proofs.Mesh.Topology

/-!
# Counting the facets of a mesh

The facets of `Topology.ofMesh m` are the distinct keys of the local facets of `m`, and a facet
has one cell per local facet of its key. So every count the topology gives is a count on the list
of keys `m.edgeKeys`, which is the keys of the cells one after the other (`edgeKeys_eq`).

* `Mesh.cellKeys` : the sorted vertex pairs of the three local facets of a cell;
* `ofMesh_numFacets` : the facets are as many as the distinct keys;
* `ofMesh_size_facetCells` : a facet has as many cells as its key has occurrences;
* `ofMesh_boundaryFacets_size` : the boundary facets are as many as the local facets whose key
  occurs once;
* `two_mul_numFacets` : when every key occurs once or twice, twice the number of facets is the
  number of local facets plus the number of boundary facets;
* `ofMesh_isBoundaryVertex_iff_key`, `ofMesh_isBoundaryCell_iff_key` : the boundary vertices are
  the ends of the keys that occur once, and the boundary cells have such a key.
-/

namespace MixedFem

namespace Mesh

variable {ρ : Type}

/-- The sorted vertex pairs of the local facets `(0,1)`, `(1,2)`, `(2,0)` of a cell. -/
def cellKeys (cv : CellVertices) : List (Nat × Nat) :=
  [(min cv.a cv.b, max cv.a cv.b), (min cv.b cv.c, max cv.b cv.c), (min cv.c cv.a, max cv.c cv.a)]

theorem cellVertices_range (m : Mesh ρ) : (List.range m.numCells).map m.cellVertices = m.cells.toList := by
  apply List.ext_getElem (by simp [numCells])
  intro c hc _
  simp only [List.getElem_map, List.getElem_range, cellVertices, Array.getD_eq_getD_getElem?,
    Array.getElem_toList]
  rw [Array.getElem?_eq_getElem (by simpa [numCells] using hc), Option.getD_some]

/-- The keys of the local facets are those of the cells, one cell after the other. -/
theorem edgeKeys_eq (m : Mesh ρ) : m.edgeKeys = m.cells.toList.flatMap cellKeys := by
  rw [← cellVertices_range, List.flatMap_map, edgeKeys, edgeVisits, List.map_flatMap]
  rfl

theorem mem_cellKeys_iff (m : Mesh ρ) (c : Nat) (e : Nat × Nat) :
    e ∈ cellKeys (m.cellVertices c) ↔ ∃ k < 3, m.edgeKey c k = e := by
  constructor
  · intro he
    simp only [cellKeys, List.mem_cons, List.not_mem_nil, or_false] at he
    rcases he with rfl | rfl | rfl
    · exact ⟨0, by omega, rfl⟩
    · exact ⟨1, by omega, rfl⟩
    · exact ⟨2, by omega, rfl⟩
  · rintro ⟨k, hk, rfl⟩
    obtain rfl | rfl | rfl : k = 0 ∨ k = 1 ∨ k = 2 := by omega
    all_goals simp [cellKeys, edgeKey, CellVertices.get]

end Mesh

namespace Topology

variable {ρ : Type} {m : Mesh ρ}

/-- The facets list the distinct keys, each once. -/
theorem ofMesh_facets_perm (m : Mesh ρ) : (ofMesh m).facets.toList.Perm m.edgeKeys.dedup := by
  obtain ⟨s, h, hfacets, -⟩ := ofMesh_cellsDone m
  rw [hfacets]
  exact (List.perm_ext_iff_of_nodup h.represents.nodup (List.nodup_dedup _)).2 fun e => by
    rw [List.mem_dedup, h.represents.mem_keys]
    rfl

theorem ofMesh_numFacets (m : Mesh ρ) : (ofMesh m).numFacets = m.edgeKeys.dedup.length := by
  rw [numFacets, ← Array.length_toList, (ofMesh_facets_perm m).length_eq]

/-- A facet has one cell for each local facet of its key. -/
theorem ofMesh_size_facetCells {f : Nat} (hf : f < (ofMesh m).numFacets) :
    ((ofMesh m).facetCells[f]!).size = m.edgeKeys.count ((ofMesh m).facets[f]!) := by
  obtain ⟨s, h, hfacets, -, hfc, -⟩ := ofMesh_cellsDone m
  have hf' : f < s.facets.size := by rw [← hfacets]; exact hf
  rw [hfc, h.size_facetCells hf', hfacets, getElem!_pos s.facets f hf']
  rfl

theorem ofMesh_isBoundaryFacet_iff {f : Nat} (hf : f < (ofMesh m).numFacets) :
    (ofMesh m).isBoundaryFacet f = true ↔ m.edgeKeys.count ((ofMesh m).facets[f]!) = 1 := by
  rw [isBoundaryFacet, ← ofMesh_size_facetCells hf, Array.getElem!_eq_getD, decide_eq_true_iff]
  rfl

theorem map_facets_range (m : Mesh ρ) :
    (List.range (ofMesh m).numFacets).map (fun f => (ofMesh m).facets[f]!) =
      (ofMesh m).facets.toList := by
  apply List.ext_getElem (by simp [numFacets])
  intro f hf _
  simp only [List.getElem_map, List.getElem_range, Array.getElem_toList]
  exact getElem!_pos _ f (by simpa [numFacets] using hf)

theorem pairBEq_eq : (instBEqProd : BEq (Nat × Nat)) = instBEqOfDecidableEq :=
  lawful_beq_subsingleton _ _

theorem ofMesh_numCells (m : Mesh ρ) : (ofMesh m).numCells = m.numCells := by
  obtain ⟨s, h, -, hcf, -⟩ := ofMesh_cellsDone m
  rw [numCells, hcf, h.cellFacets_size]

/-- Every facet is the key of a local facet. -/
theorem ofMesh_facet_mem_edgeKeys {f : Nat} (hf : f < (ofMesh m).numFacets) :
    (ofMesh m).facets[f]! ∈ m.edgeKeys := by
  have hmem : (ofMesh m).facets[f]! ∈ (ofMesh m).facets.toList := by
    rw [← map_facets_range]
    exact List.mem_map.2 ⟨f, List.mem_range.2 hf, rfl⟩
  exact List.mem_dedup.1 ((ofMesh_facets_perm m).subset hmem)

/-- A key occurring once, tested as the boundary pass tests a facet. -/
def OccursOnce (keys : List (Nat × Nat)) (e : Nat × Nat) : Bool := keys.count e == 1

/-- Over the distinct keys, those occurring once are as many as their occurrences. -/
theorem length_filter_dedup_occursOnce (keys : List (Nat × Nat)) :
    (keys.dedup.filter (OccursOnce keys)).length = keys.countP (OccursOnce keys) := by
  rw [← List.sum_map_count_dedup_filter_eq_countP]
  have hone : ∀ e ∈ keys.dedup.filter (OccursOnce keys), keys.count e = 1 := fun e he => by
    simpa [OccursOnce] using (List.mem_filter.1 he).2
  -- the library counts pairs by decidable equality, the mesh componentwise
  rw [pairBEq_eq] at hone
  rw [List.map_congr_left hone]
  simp

/-- The boundary facets are as many as the local facets whose key occurs once. -/
theorem ofMesh_boundaryFacets_size (m : Mesh ρ) :
    (ofMesh m).boundaryFacets.size = m.edgeKeys.countP (OccursOnce m.edgeKeys) := by
  have hbf : ∀ f ∈ List.range (ofMesh m).numFacets, (ofMesh m).isBoundaryFacet f =
      OccursOnce m.edgeKeys ((ofMesh m).facets[f]!) := fun f hf => by
    rw [Bool.eq_iff_iff, ofMesh_isBoundaryFacet_iff (List.mem_range.1 hf), OccursOnce,
      beq_iff_eq]
  rw [boundaryFacets, ← Array.length_toList, Array.toList_filter, Array.toList_range,
    ← List.countP_eq_length_filter, List.countP_congr (fun f hf => by rw [hbf f hf]),
    ← Function.comp_def, ← List.countP_map, map_facets_range, (ofMesh_facets_perm m).countP_eq,
    List.countP_eq_length_filter, length_filter_dedup_occursOnce]

/-- Keys each occurring once or twice: their occurrences and those occurring once make up twice
their number. -/
theorem sum_count_add_length_filter {keys : List (Nat × Nat)}
    (h : ∀ e ∈ keys, keys.count e = 1 ∨ keys.count e = 2) :
    ∀ l : List (Nat × Nat), (∀ e ∈ l, e ∈ keys) →
      (l.map keys.count).sum + (l.filter (OccursOnce keys)).length = 2 * l.length
  | [], _ => rfl
  | e :: l, hl => by
    have ih := sum_count_add_length_filter h l fun x hx => hl x (List.mem_cons_of_mem _ hx)
    rcases h e (hl e List.mem_cons_self) with he | he <;>
      simp [OccursOnce, he] <;> omega

/-- When every key occurs once or twice (every facet has one or two cells), twice the number of
facets is the number of local facets plus the number of boundary facets. -/
theorem two_mul_numFacets (h : ∀ e ∈ m.edgeKeys, m.edgeKeys.count e = 1 ∨ m.edgeKeys.count e = 2) :
    2 * (ofMesh m).numFacets = m.edgeKeys.length + (ofMesh m).boundaryFacets.size := by
  have hsum := sum_count_add_length_filter h _ fun e he => List.mem_dedup.1 he
  rw [pairBEq_eq, List.sum_map_count_dedup_eq_length] at hsum
  rw [ofMesh_numFacets, ofMesh_boundaryFacets_size, ← length_filter_dedup_occursOnce, hsum]

/-- The boundary vertices are the ends of the keys that occur once. -/
theorem ofMesh_isBoundaryVertex_iff_key (v : Nat) :
    (ofMesh m).isBoundaryVertex v = true ↔
      ∃ e ∈ m.edgeKeys, m.edgeKeys.count e = 1 ∧ (v = e.1 ∨ v = e.2) := by
  rw [ofMesh_isBoundaryVertex_iff m]
  constructor
  · rintro ⟨f, hf, hsize, hv⟩
    refine ⟨_, ofMesh_facet_mem_edgeKeys hf, ?_, hv⟩
    rw [← ofMesh_size_facetCells hf, hsize]
  · rintro ⟨e, he, hcount, hv⟩
    have hmem := (ofMesh_facets_perm m).symm.subset (List.mem_dedup.2 he)
    rw [← map_facets_range] at hmem
    obtain ⟨f, hf, rfl⟩ := List.mem_map.1 hmem
    exact ⟨f, List.mem_range.1 hf, by rw [ofMesh_size_facetCells (List.mem_range.1 hf), hcount], hv⟩

/-- A cell is on the boundary when one of its keys occurs once. -/
theorem ofMesh_isBoundaryCell_iff_key {c : Nat} (hc : c < m.numCells) :
    (ofMesh m).isBoundaryCell c = true ↔
      ∃ e ∈ Mesh.cellKeys (m.cellVertices c), m.edgeKeys.count e = 1 := by
  obtain ⟨s, h, hfacets, hcf, -⟩ := ofMesh_cellsDone m
  obtain ⟨f0, f1, f2, hg, h0, h1, h2⟩ := h.cellFacets c hc
  -- local facet `k` of the cell is a facet whose key is the cell's key `k`
  have hkey : ∀ k < 3, ∃ f < (ofMesh m).numFacets, ((ofMesh m).cellFacets[c]!)[k]! = f ∧
      (ofMesh m).facets[f]! = m.edgeKey c k := by
    intro k hk
    have hfk : ∀ g, s.facets[g]? = some (m.edgeKey c k) →
        ∃ f < (ofMesh m).numFacets, g = f ∧ (ofMesh m).facets[f]! = m.edgeKey c k := fun g hg' => by
      have hlt : g < s.facets.size := (Array.getElem?_eq_some_iff.1 hg').1
      refine ⟨g, by rw [numFacets, hfacets]; exact hlt, rfl, ?_⟩
      rw [hfacets, getElem!_pos s.facets g hlt]
      exact Option.some.inj ((Array.getElem?_eq_getElem hlt).symm.trans hg')
    rw [hcf, hg]
    obtain rfl | rfl | rfl : k = 0 ∨ k = 1 ∨ k = 2 := by omega
    · exact hfk f0 h0
    · exact hfk f1 h1
    · exact hfk f2 h2
  rw [ofMesh_isBoundaryCell_iff m hc]
  constructor
  · rintro ⟨k, hk, hsize⟩
    obtain ⟨f, hf, hfe, hkf⟩ := hkey k hk
    rw [hfe, ofMesh_size_facetCells hf, hkf] at hsize
    exact ⟨_, (Mesh.mem_cellKeys_iff m c _).2 ⟨k, hk, rfl⟩, hsize⟩
  · rintro ⟨e, he, hcount⟩
    obtain ⟨k, hk, rfl⟩ := (Mesh.mem_cellKeys_iff m c e).1 he
    obtain ⟨f, hf, hfe, hkf⟩ := hkey k hk
    exact ⟨k, hk, by rw [hfe, ofMesh_size_facetCells hf, hkf, hcount]⟩

end Topology

end MixedFem
