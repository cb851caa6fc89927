import Mathlib.Algebra.BigOperators.Group.List.Lemmas
import Mathlib.Algebra.GroupWithZero.Nat
import MixedFem.Mesh.Topology
import MixedFem.Proofs.Loop

/-!
# The facets of a mesh and their incidences

`Topology.ofMesh` numbers the facets while it visits the local facets `(cell, k)` in order: a
lookup in the index either finds the facet of the sorted vertex pair, which gains the cell, or
numbers a new facet after the others. A second pass marks the ends of the facets of a single cell.

* `Mesh.edgeKey m c k` : the sorted vertex pair of local facet `k` of cell `c`;
  `Mesh.edgeVisits`, `Mesh.edgeKeys` : all local facets in the order of the visit;
* `Builder.Represents s vs` : what the builder holds after the visits `vs`; `Represents.visit` is
  the step lemma of one lookup-or-insert;
* `Topology.CellsDone m J s` : the builder after the first `J` cells, kept by each cell
  (`cellsDone_succ`) and reached by the whole pass (`ofMesh_cellsDone`);
* `ofMesh_isBoundaryVertex_iff`, `ofMesh_isBoundaryCell_iff` : what the boundary marks mean;
* `Topology.Incidence m t` : the facets of a mesh and their incidences, which `ofMesh` has on
  every mesh (`incidence_ofMesh`); `Topology.Describes m t` adds the boundary marks, the
  representation invariant of the topology of a mesh (`ofMesh_incidence`).
-/

namespace MixedFem

/-- A local vertex of a cell is one of its three vertices. -/
theorem CellVertices.get_mem (cv : CellVertices) (k : Nat) : cv.get k ∈ cv.toList := by
  unfold CellVertices.get CellVertices.toList
  split_ifs <;> simp

section Push

variable {α : Type} [Inhabited α] {xs : Array α} {x : α}

theorem getElem!_push_lt {i : Nat} (h : i < xs.size) : (xs.push x)[i]! = xs[i]! := by
  rw [getElem!_pos (xs.push x) i (by simp; omega), getElem!_pos xs i h, Array.getElem_push_lt h]

theorem getElem!_push_size : (xs.push x)[xs.size]! = x := by
  rw [getElem!_pos (xs.push x) xs.size (by simp), Array.getElem_push_eq]

end Push

section Zip

variable {α β : Type} [Inhabited α] [Inhabited β]

/-- The pairs of the zip of two arrays of one size are their entries at one index. -/
theorem mem_zip_toList_iff {xs : Array α} {ys : Array β} (h : xs.size = ys.size) {e : α × β} :
    e ∈ (xs.zip ys).toList ↔ ∃ f < xs.size, e = (xs[f]!, ys[f]!) := by
  rw [Array.toList_zip, List.mem_iff_getElem]
  simp only [List.length_zip, Array.length_toList, h, min_self, List.getElem_zip,
    Array.getElem_toList]
  -- both sides now bound the index by the common size
  constructor <;> rintro ⟨f, hf, rfl⟩ <;>
    exact ⟨f, hf, by rw [getElem!_pos xs f (h ▸ hf), getElem!_pos ys f hf]⟩

end Zip

namespace Mesh

variable {ρ : Type}

/-- The sorted vertex pair of local facet `k` of cell `c`: of its local vertices `k` and
`(k + 1) % 3`. -/
def edgeKey (m : Mesh ρ) (c k : Nat) : Nat × Nat :=
  let cv := m.cellVertices c
  (min (cv.get k) (cv.get ((k + 1) % 3)), max (cv.get k) (cv.get ((k + 1) % 3)))

/-- The three local facets of cell `c`, each with the cell. -/
def cellEdges (m : Mesh ρ) (c : Nat) : List (Nat × (Nat × Nat)) :=
  (List.range 3).map fun k => (c, m.edgeKey c k)

/-- The local facets of all cells, in the order of the cells and then of `k`. -/
def edgeVisits (m : Mesh ρ) : List (Nat × (Nat × Nat)) :=
  (List.range m.numCells).flatMap m.cellEdges

/-- The sorted vertex pairs of the local facets, in the order of the visit. -/
def edgeKeys (m : Mesh ρ) : List (Nat × Nat) := m.edgeVisits.map Prod.snd

theorem cellEdges_eq (m : Mesh ρ) (c : Nat) :
    m.cellEdges c = [(c, m.edgeKey c 0), (c, m.edgeKey c 1), (c, m.edgeKey c 2)] := rfl

theorem mem_edgeKeys {m : Mesh ρ} {e : Nat × Nat} :
    e ∈ m.edgeKeys ↔ ∃ c < m.numCells, ∃ k < 3, m.edgeKey c k = e := by
  simp [edgeKeys, edgeVisits, cellEdges]

theorem edgeKey_le (m : Mesh ρ) (c k : Nat) : (m.edgeKey c k).1 ≤ (m.edgeKey c k).2 :=
  min_le_max

/-- The ends of the edges of a mesh are vertices, since its cells name its vertices. -/
theorem edgeKey_lt {m : Mesh ρ} {c : Nat} (hc : c < m.numCells)
    (k : Nat) : (m.edgeKey c k).1 < m.numVertices ∧ (m.edgeKey c k).2 < m.numVertices := by
  have hmem : m.cellVertices c ∈ m.cells := by
    simp only [cellVertices, Array.getD_eq_getD_getElem?, Array.getElem?_eq_getElem hc,
      Option.getD_some]
    exact Array.getElem_mem hc
  have hv := fun j => m.cells_lt _ hmem _ ((m.cellVertices c).get_mem j)
  exact ⟨lt_of_le_of_lt (min_le_left _ _) (hv k), max_lt (hv k) (hv _)⟩

end Mesh

namespace Topology.Builder

/-- What a builder holds after visiting the local facets `vs`, each with its cell: the facets are
the first appearances of the keys, the index finds the number of each facet and nothing else, and
the cells of a facet are those of the visits of its key, in order. -/
structure Represents (s : Builder) (vs : List (Nat × (Nat × Nat))) : Prop where
  facets : s.facets.toList = (vs.map Prod.snd).eraseDups
  nodup : s.facets.toList.Nodup
  index_some : ∀ (key : Nat × Nat) (f : Nat), s.index[key]? = some f → s.facets[f]? = some key
  index_none : ∀ key : Nat × Nat, s.index[key]? = none → key ∉ s.facets.toList
  facetCells_size : s.facetCells.size = s.facets.size
  facetCells : ∀ (f : Nat) (key : Nat × Nat), s.facets[f]? = some key →
    (s.facetCells[f]?).map Array.toList = some ((vs.filter (·.2 == key)).map Prod.fst)

theorem represents_empty : ({} : Builder).Represents [] where
  facets := rfl
  nodup := List.nodup_nil
  index_some key f h := by simp at h
  index_none _ _ := List.not_mem_nil
  facetCells_size := rfl
  facetCells f key h := by simp at h

variable {s : Builder} {vs : List (Nat × (Nat × Nat))}

theorem Represents.setCellFacets (h : s.Represents vs) (cf : Array (Array Nat)) :
    ({ s with cellFacets := cf } : Builder).Represents vs :=
  ⟨h.facets, h.nodup, h.index_some, h.index_none, h.facetCells_size, h.facetCells⟩

theorem Represents.mem_keys (h : s.Represents vs) {key : Nat × Nat} :
    key ∈ s.facets.toList ↔ key ∈ vs.map Prod.snd := by
  rw [h.facets, List.mem_eraseDups]

/-- Distinct facet numbers hold distinct keys. -/
theorem Represents.facet_inj (h : s.Represents vs) {f f' : Nat} {key : Nat × Nat}
    (hf : s.facets[f]? = some key) (hf' : s.facets[f']? = some key) : f = f' := by
  rw [← Array.getElem?_toList] at hf hf'
  obtain ⟨hlt, hget⟩ := List.getElem?_eq_some_iff.1 hf
  obtain ⟨hlt', hget'⟩ := List.getElem?_eq_some_iff.1 hf'
  exact (h.nodup.getElem_inj_iff).1 (hget.trans hget'.symm)

/-- One lookup-or-insert: the key's facet, old or new, gains the cell, and the numbers given so
far keep their facets. -/
theorem Represents.visit (h : s.Represents vs) (c a b : Nat) :
    (s.visit c a b).1.Represents (vs ++ [(c, (min a b, max a b))]) ∧
      (s.visit c a b).1.facets[(s.visit c a b).2]? = some (min a b, max a b) ∧
      (s.visit c a b).1.cellFacets = s.cellFacets ∧
      ∀ (f : Nat) (key : Nat × Nat), s.facets[f]? = some key →
        (s.visit c a b).1.facets[f]? = some key := by
  set key := (min a b, max a b) with hkey
  cases hk : s.index[key]? with
  | some f =>
    -- a facet met before: one more cell for it
    have hf := h.index_some key f hk
    have hmem : key ∈ vs.map Prod.snd :=
      h.mem_keys.1 (Array.mem_toList_iff.2 (Array.mem_of_getElem? hf))
    simp only [Builder.visit, ← hkey, hk]
    refine ⟨⟨?_, h.nodup, h.index_some, h.index_none, by simp [h.facetCells_size], ?_⟩, hf,
      trivial, fun _ _ h' => h'⟩
    · simp [h.facets, List.eraseDups_append, List.removeAll, hmem]
    · intro f' key' hf'
      rw [Array.getElem?_modify, List.filter_append, List.map_append]
      by_cases hff : f = f'
      · subst hff
        have hkk : key' = key := Option.some.inj (hf'.symm.trans hf)
        subst hkk
        rw [if_pos rfl]
        have hc := h.facetCells f key hf'
        cases hx : s.facetCells[f]? with
        | none => rw [hx] at hc; cases hc
        | some arr =>
          rw [hx, Option.map_some, Option.some.injEq] at hc
          simp [hc]
      · have hne : key ≠ key' := fun he => hff (h.facet_inj hf (he ▸ hf'))
        rw [if_neg hff, h.facetCells f' key' hf']
        simp [hne]
  | none =>
    -- a new facet, numbered after the others
    have hnot := h.index_none key hk
    have hnot' : key ∉ vs.map Prod.snd := fun hm => hnot (h.mem_keys.2 hm)
    simp only [Builder.visit, ← hkey, hk]
    refine ⟨⟨?_, ?_, ?_, ?_, by simp [h.facetCells_size], ?_⟩, by simp, trivial, ?_⟩
    · simp [h.facets, List.eraseDups_append, List.removeAll, hnot', List.eraseDups_cons]
    · simp only [Array.toList_push, List.nodup_append, h.nodup, List.nodup_singleton,
        List.mem_singleton, true_and]
      rintro x hx _ rfl rfl
      exact hnot hx
    · intro key' f' hf'
      rw [Std.HashMap.getElem?_insert] at hf'
      by_cases hkk : key = key'
      · subst hkk
        simp only [beq_self_eq_true, if_true, Option.some.injEq] at hf'
        subst hf'
        simp
      · rw [if_neg (by simpa using hkk)] at hf'
        rw [Array.getElem?_push, if_neg ?_]
        · exact h.index_some key' f' hf'
        · intro he
          have := h.index_some key' f' hf'
          rw [he, Array.getElem?_eq_none (Nat.le_refl _)] at this
          cases this
    · intro key' hk'
      rw [Std.HashMap.getElem?_insert] at hk'
      by_cases hkk : key = key'
      · subst hkk
        simp at hk'
      · rw [if_neg (by simpa using hkk)] at hk'
        simp [h.index_none key' hk', Ne.symm hkk]
    · intro f' key' hf'
      rw [Array.getElem?_push] at hf' ⊢
      rw [List.filter_append, List.map_append]
      by_cases hn : f' = s.facets.size
      · rw [if_pos hn] at hf'
        have hkk : key' = key := (Option.some.inj hf').symm
        subst hkk
        rw [if_pos (hn.trans h.facetCells_size.symm)]
        have hnone : vs.filter (·.2 == key) = [] := by
          refine List.filter_eq_nil_iff.2 fun x hx hxk => hnot' ?_
          exact List.mem_map.2 ⟨x, hx, by simpa using hxk⟩
        simp [hnone]
      · rw [if_neg hn] at hf'
        rw [if_neg (by rw [h.facetCells_size]; exact hn), h.facetCells f' key' hf']
        have hne : key ≠ key' :=
          fun he => hnot (he ▸ Array.mem_toList_iff.2 (Array.mem_of_getElem? hf'))
        simp [hne]
    · intro f' key' hf'
      rw [Array.getElem?_push, if_neg ?_]
      · exact hf'
      · intro he
        rw [he, Array.getElem?_eq_none (Nat.le_refl _)] at hf'
        cases hf'

end Topology.Builder

namespace Topology

open Builder

variable {ρ : Type} {m : Mesh ρ}

/-- The builder after the first `J` cells: it represents their local facets, and the facets of
each of these cells are the facets of its three edges. -/
structure CellsDone (m : Mesh ρ) (J : Nat) (s : Builder) : Prop where
  represents : s.Represents ((List.range J).flatMap m.cellEdges)
  cellFacets_size : s.cellFacets.size = J
  cellFacets : ∀ c < J, ∃ f0 f1 f2, s.cellFacets[c]! = #[f0, f1, f2] ∧
    s.facets[f0]? = some (m.edgeKey c 0) ∧ s.facets[f1]? = some (m.edgeKey c 1) ∧
    s.facets[f2]? = some (m.edgeKey c 2)

theorem cellsDone_zero : CellsDone m 0 {} :=
  ⟨represents_empty, rfl, fun _ h => absurd h (Nat.not_lt_zero _)⟩

/-- One cell visits its three edges and records their facets. -/
theorem cellsDone_succ {J : Nat} {s : Builder} (h : CellsDone m J s) :
    CellsDone m (J + 1)
      (let cv := m.cellVertices J
       let (s, f0) := s.visit J (cv.get 0) (cv.get 1)
       let (s, f1) := s.visit J (cv.get 1) (cv.get 2)
       let (s, f2) := s.visit J (cv.get 2) (cv.get 0)
       { s with cellFacets := s.cellFacets.push #[f0, f1, f2] }) := by
  dsimp only
  obtain ⟨h1, hf0, hc1, hk1⟩ := h.represents.visit J ((m.cellVertices J).get 0)
    ((m.cellVertices J).get 1)
  generalize s.visit J ((m.cellVertices J).get 0) ((m.cellVertices J).get 1) = p1 at h1 hf0 hc1 hk1
  obtain ⟨s1, f0⟩ := p1
  obtain ⟨h2, hf1, hc2, hk2⟩ := h1.visit J ((m.cellVertices J).get 1) ((m.cellVertices J).get 2)
  generalize s1.visit J ((m.cellVertices J).get 1) ((m.cellVertices J).get 2) = p2 at h2 hf1 hc2 hk2
  obtain ⟨s2, f1⟩ := p2
  obtain ⟨h3, hf2, hc3, hk3⟩ := h2.visit J ((m.cellVertices J).get 2) ((m.cellVertices J).get 0)
  generalize s2.visit J ((m.cellVertices J).get 2) ((m.cellVertices J).get 0) = p3 at h3 hf2 hc3 hk3
  obtain ⟨s3, f2⟩ := p3
  dsimp only at hf0 hc1 hf1 hc2 hf2 hc3 h1 h2 h3 ⊢
  have hcf : s3.cellFacets = s.cellFacets := hc3.trans (hc2.trans hc1)
  refine ⟨?_, by simp [hcf, h.cellFacets_size], fun c hc => ?_⟩
  · rw [List.range_succ, List.flatMap_append, List.flatMap_singleton]
    simp only [List.append_assoc, List.cons_append, List.nil_append] at h3
    exact h3.setCellFacets _
  · show ∃ g0 g1 g2, (s3.cellFacets.push #[f0, f1, f2])[c]! = #[g0, g1, g2] ∧ _
    rw [hcf]
    by_cases hcJ : c = J
    · -- the cell just visited
      subst hcJ
      rw [← h.cellFacets_size, getElem!_push_size, h.cellFacets_size]
      exact ⟨f0, f1, f2, rfl, hk3 f0 _ (hk2 f0 _ hf0), hk3 f1 _ hf1, hf2⟩
    · -- an earlier cell, whose facets keep their numbers
      have hlt : c < s.cellFacets.size := by rw [h.cellFacets_size]; omega
      rw [getElem!_push_lt hlt]
      obtain ⟨g0, g1, g2, hg, h0, h1, h2⟩ := h.cellFacets c (by omega)
      have hkeep : ∀ f key, s.facets[f]? = some key → s3.facets[f]? = some key :=
        fun f key hf => hk3 f key (hk2 f key (hk1 f key hf))
      exact ⟨g0, g1, g2, hg, hkeep _ _ h0, hkeep _ _ h1, hkeep _ _ h2⟩

variable {J : Nat} {s : Builder}

/-- The local facets of a visited cell that are facet `f`: one entry of the cell for each time
`f` is among its facets. -/
theorem CellsDone.cellEdges_filter (h : CellsDone m J s) {f : Nat} {key : Nat × Nat}
    (hf : s.facets[f]? = some key) {c : Nat} (hc : c < J) :
    ((m.cellEdges c).filter (·.2 == key)).map Prod.fst =
      List.replicate ((s.cellFacets[c]!).count f) c := by
  obtain ⟨g0, g1, g2, hg, h0, h1, h2⟩ := h.cellFacets c hc
  -- the facet numbers of the cell and their keys are equal together, the facets being distinct
  have e : ∀ g k, s.facets[g]? = some k → (g = f ↔ k = key) := fun g k hk =>
    ⟨fun hgf => Option.some.inj (hk.symm.trans (hgf ▸ hf)),
      fun hkk => h.represents.facet_inj (hkk ▸ hk) hf⟩
  rw [hg, Mesh.cellEdges_eq]
  simp only [List.filter_cons, List.filter_nil, beq_iff_eq, ← e _ _ h0, ← e _ _ h1, ← e _ _ h2,
    List.count_toArray, List.count_cons, List.count_nil]
  split_ifs <;> simp

/-- The cells of a facet, in ascending order, each once per local facet of it that is the
facet. -/
theorem CellsDone.facetCells_eq (h : CellsDone m J s) {f : Nat} (hf : f < s.facets.size) :
    (s.facetCells[f]!).toList =
      (List.range J).flatMap fun c => List.replicate ((s.cellFacets[c]!).count f) c := by
  have hkey : s.facets[f]? = some s.facets[f] := Array.getElem?_eq_getElem hf
  have hf' : f < s.facetCells.size := h.represents.facetCells_size ▸ hf
  have hcells := h.represents.facetCells f _ hkey
  rw [Array.getElem?_eq_getElem hf', Option.map_some, Option.some.injEq] at hcells
  rw [getElem!_pos _ f hf', hcells, List.filter_flatMap, List.map_flatMap]
  exact List.flatMap_congr fun c hc => h.cellEdges_filter hkey (List.mem_range.1 hc)

/-- A facet has as many cells as its key has visits. -/
theorem CellsDone.size_facetCells (h : CellsDone m J s) {f : Nat} (hf : f < s.facets.size) :
    (s.facetCells[f]!).size =
      (((List.range J).flatMap m.cellEdges).map Prod.snd).count s.facets[f] := by
  have hf' : f < s.facetCells.size := h.represents.facetCells_size ▸ hf
  have hcells := h.represents.facetCells f _ (Array.getElem?_eq_getElem hf)
  rw [Array.getElem?_eq_getElem hf', Option.map_some, Option.some.injEq] at hcells
  rw [getElem!_pos _ f hf', ← Array.length_toList, hcells, List.length_map,
    ← List.countP_eq_length_filter, List.count, List.countP_map]
  rfl

/-- Every visit is counted once among the cells of the facets: the facets are the distinct
keys. -/
theorem CellsDone.sum_size_facetCells (h : CellsDone m J s) :
    (s.facetCells.toList.map Array.size).sum = 3 * J := by
  set keys := ((List.range J).flatMap m.cellEdges).map Prod.snd
  have hsizes : s.facetCells.toList.map Array.size = s.facets.toList.map keys.count := by
    refine List.ext_getElem (by simp [h.represents.facetCells_size]) fun i hi _ => ?_
    have hi' : i < s.facets.size := by simpa [h.represents.facetCells_size] using hi
    simp only [List.getElem_map, Array.getElem_toList]
    rw [← getElem!_pos s.facetCells i (by simpa using hi), h.size_facetCells hi']
  have hperm : s.facets.toList.Perm keys.dedup :=
    (List.perm_ext_iff_of_nodup h.represents.nodup (List.nodup_dedup keys)).2 fun a => by
      rw [List.mem_dedup, h.represents.mem_keys]
  rw [hsizes, (hperm.map _).sum_eq]
  -- the library counts with decidable equality, the pairs with their own `==`
  convert List.sum_map_count_dedup_eq_length keys using 3
  · rfl
  · funext x
    refine List.countP_congr fun y _ => ?_
    simp only [beq_iff_eq]
  · simp [keys, Mesh.cellEdges, List.length_flatMap, Nat.mul_comm]

/-- The facet pass of `ofMesh` visits every cell. -/
theorem ofMesh_cellsDone (m : Mesh ρ) : ∃ s : Builder, CellsDone m m.numCells s ∧
    (ofMesh m).facets = s.facets ∧ (ofMesh m).cellFacets = s.cellFacets ∧
    (ofMesh m).facetCells = s.facetCells ∧
    (ofMesh m).boundaryVertex = (s.facets.zip s.facetCells).foldl (fun (bv : Array Bool) ((a, b), cs) =>
      if cs.size = 1 then (bv.set! a true).set! b true else bv) (Array.replicate m.numVertices false) :=
  ⟨_, foldl_range_invariant (P := CellsDone m) (fun _ _ _ h => cellsDone_succ h) cellsDone_zero _
    le_rfl, rfl, rfl, rfl, rfl⟩

/-- The boundary pass at one facet: both ends are marked when the facet has a single cell. -/
theorem markBoundary_getElem (bv : Array Bool) (a b : Nat) (cs : Array Nat) {v : Nat}
    (hv : v < bv.size) :
    (if cs.size = 1 then (bv.set! a true).set! b true else bv)[v]! = true ↔
      bv[v]! = true ∨ (cs.size = 1 ∧ (v = a ∨ v = b)) := by
  by_cases hcs : cs.size = 1
  · rw [if_pos hcs]
    by_cases hb : v = b
    · subst hb
      rw [Array.getElem!_set!_self _ _ _ (by rw [Array.size_set!]; exact hv)]
      simp [hcs]
    · rw [Array.getElem!_set!_ne _ _ _ _ (Ne.symm hb)]
      by_cases ha : v = a
      · subst ha
        rw [Array.getElem!_set!_self _ _ _ hv]
        simp [hcs]
      · rw [Array.getElem!_set!_ne _ _ _ _ (Ne.symm ha)]
        simp [ha, hb]
  · simp [hcs]

/-- The boundary pass marks exactly the ends of the facets of a single cell. -/
theorem boundary_foldl : ∀ (l : List ((Nat × Nat) × Array Nat)) (bv : Array Bool),
    (l.foldl (fun (bv : Array Bool) ((a, b), cs) =>
        if cs.size = 1 then (bv.set! a true).set! b true else bv) bv).size = bv.size ∧
    ∀ v < bv.size, ((l.foldl (fun (bv : Array Bool) ((a, b), cs) =>
        if cs.size = 1 then (bv.set! a true).set! b true else bv) bv)[v]! = true ↔
      bv[v]! = true ∨ ∃ e ∈ l, e.2.size = 1 ∧ (v = e.1.1 ∨ v = e.1.2))
  | [], bv => ⟨rfl, fun v _ => by simp⟩
  | ((a, b), cs) :: l, bv => by
    have hsize : (if cs.size = 1 then (bv.set! a true).set! b true else bv).size = bv.size := by
      split_ifs <;> simp
    obtain ⟨ih_size, ih⟩ :=
      boundary_foldl l (if cs.size = 1 then (bv.set! a true).set! b true else bv)
    refine ⟨ih_size.trans hsize, fun v hv => ?_⟩
    rw [List.foldl_cons, ih v (hsize ▸ hv), markBoundary_getElem bv a b cs hv]
    simp only [List.mem_cons, exists_eq_or_imp, or_assoc]

/-- Every facet of the topology is the edge of a cell. -/
theorem ofMesh_facet_edge (m : Mesh ρ) {e : Nat × Nat} (he : e ∈ (ofMesh m).facets) :
    ∃ c < m.numCells, ∃ k < 3, m.edgeKey c k = e := by
  obtain ⟨s, h, hfacets, -⟩ := ofMesh_cellsDone m
  rw [hfacets] at he
  exact Mesh.mem_edgeKeys.1 (h.represents.mem_keys.1 (Array.mem_toList_iff.2 he))

/-- The boundary vertices are the ends of the facets of a single cell. The pass marks only
inside the vertex range, and misses none: the ends of every facet are vertices. -/
theorem ofMesh_isBoundaryVertex_iff (m : Mesh ρ) (v : Nat) :
    (ofMesh m).isBoundaryVertex v = true ↔ ∃ f < (ofMesh m).numFacets,
      ((ofMesh m).facetCells[f]!).size = 1 ∧
        (v = ((ofMesh m).facets[f]!).1 ∨ v = ((ofMesh m).facets[f]!).2) := by
  obtain ⟨s, h, hfacets, -, hfc, hbv⟩ := ofMesh_cellsDone m
  obtain ⟨hbsize, hmark⟩ := boundary_foldl (s.facets.zip s.facetCells).toList
    (Array.replicate m.numVertices false)
  rw [Array.foldl_toList, Array.size_replicate] at hbsize hmark
  show (ofMesh m).boundaryVertex.getD v false = true ↔ ∃ f < (ofMesh m).facets.size, _
  rw [hbv, hfacets, hfc, Array.getD_eq_getD_getElem?]
  by_cases hv : v < m.numVertices
  · have hv' := hv
    rw [← hbsize] at hv'
    rw [Array.getElem?_eq_getElem hv', Option.getD_some, ← getElem!_pos _ v hv', hmark v hv,
      getElem!_pos _ v (by simpa using hv), Array.getElem_replicate]
    simp only [Bool.false_eq_true, false_or, mem_zip_toList_iff h.represents.facetCells_size.symm]
    constructor
    · rintro ⟨e, ⟨f, hf, rfl⟩, he⟩
      exact ⟨f, hf, he⟩
    · rintro ⟨f, hf, he⟩
      exact ⟨_, ⟨f, hf, rfl⟩, he⟩
  · rw [Array.getElem?_eq_none (by omega), Option.getD_none]
    simp only [Bool.false_eq_true, false_iff, not_exists, not_and]
    intro f hf _ hvf
    have hmem : s.facets[f]! ∈ (ofMesh m).facets := by
      rw [hfacets, getElem!_pos s.facets f hf]
      exact Array.getElem_mem hf
    obtain ⟨c, hc, k, -, hk⟩ := ofMesh_facet_edge m hmem
    have := Mesh.edgeKey_lt hc k
    rw [hk] at this
    omega

/-- A cell is on the boundary when one of its three facets has a single cell. -/
theorem ofMesh_isBoundaryCell_iff (m : Mesh ρ) {c : Nat} (hc : c < m.numCells) :
    (ofMesh m).isBoundaryCell c = true ↔
      ∃ k < 3, ((ofMesh m).facetCells[((ofMesh m).cellFacets[c]!)[k]!]!).size = 1 := by
  obtain ⟨s, h, -, hcf, hfc, -⟩ := ofMesh_cellsDone m
  obtain ⟨f0, f1, f2, hg, -⟩ := h.cellFacets c hc
  have hgd : s.cellFacets.getD c #[] = #[f0, f1, f2] := by
    rw [← hg, Array.getElem!_eq_getD]
    rfl
  have hbf : ∀ f, (ofMesh m).isBoundaryFacet f = decide ((s.facetCells[f]!).size = 1) :=
    fun f => by
      rw [isBoundaryFacet, hfc, Array.getElem!_eq_getD]
      rfl
  show ((ofMesh m).cellFacets.getD c #[]).any (ofMesh m).isBoundaryFacet = true ↔ _
  rw [hfc, hcf, hgd, hg]
  simp only [List.any_toArray, List.any_cons, List.any_nil, Bool.or_false, Bool.or_eq_true, hbf,
    decide_eq_true_eq]
  constructor
  · rintro (h0 | h1 | h2)
    · exact ⟨0, by omega, h0⟩
    · exact ⟨1, by omega, h1⟩
    · exact ⟨2, by omega, h2⟩
  · rintro ⟨k, hk, hsz⟩
    obtain rfl | rfl | rfl : k = 0 ∨ k = 1 ∨ k = 2 := by omega
    · exact Or.inl hsz
    · exact Or.inr (Or.inl hsz)
    · exact Or.inr (Or.inr hsz)

/-- The incidences of the topology `t` of a mesh `m`: its facets, the facets of each cell and
the cells of each facet. -/
structure Incidence (m : Mesh ρ) (t : Topology) : Prop where
  /-- The facets are the sorted vertex pairs of the local facets `(cell, k)`, in the order in
  which they first appear. -/
  facets_eq : t.facets.toList = m.edgeKeys.eraseDups
  facets_nodup : t.facets.toList.Nodup
  facets_sorted : ∀ e ∈ t.facets, e.1 ≤ e.2
  numCells_eq : t.numCells = m.numCells
  /-- Local facet `k` of cell `c` is the facet of its local vertices `k` and `(k + 1) % 3`. -/
  cellFacets_edge : ∀ c < m.numCells, (t.cellFacets[c]!).size = 3 ∧
    ∀ k < 3, t.facets[(t.cellFacets[c]!)[k]!]? = some (m.edgeKey c k)
  facetCells_size : t.facetCells.size = t.numFacets
  /-- The cells of a facet are those having it among their facets, ascending, one entry per
  occurrence. -/
  facetCells_eq : ∀ f < t.numFacets, (t.facetCells[f]!).toList =
    (List.range m.numCells).flatMap fun c => List.replicate ((t.cellFacets[c]!).count f) c
  sum_facetCells : (t.facetCells.toList.map Array.size).sum = 3 * m.numCells

/-- The representation invariant of the topology `t` of a mesh `m`: its incidences, and the
boundary marks read from them. -/
structure Describes (m : Mesh ρ) (t : Topology) : Prop extends Incidence m t where
  boundaryVertex_iff : ∀ v, t.isBoundaryVertex v = true ↔ ∃ f < t.numFacets,
    (t.facetCells[f]!).size = 1 ∧ (v = (t.facets[f]!).1 ∨ v = (t.facets[f]!).2)
  boundaryCell_iff : ∀ c < m.numCells, t.isBoundaryCell c = true ↔
    ∃ k < 3, (t.facetCells[(t.cellFacets[c]!)[k]!]!).size = 1

/-- The topology built from a mesh has the incidences of its cells. -/
theorem incidence_ofMesh (m : Mesh ρ) : Incidence m (ofMesh m) := by
  obtain ⟨s, h, hfacets, hcf, hfc, -⟩ := ofMesh_cellsDone m
  have hrep := h.represents
  have hsize : (ofMesh m).facets.size = s.facets.size := by rw [hfacets]
  refine ⟨?_, ?_, ?_, ?_, fun c hc => ?_, ?_, fun f hf => ?_, ?_⟩
  · rw [hfacets]
    exact hrep.facets
  · rw [hfacets]
    exact hrep.nodup
  · intro e he
    obtain ⟨c, -, k, -, rfl⟩ := ofMesh_facet_edge m he
    exact Mesh.edgeKey_le m c k
  · show (ofMesh m).cellFacets.size = _
    rw [hcf]
    exact h.cellFacets_size
  · obtain ⟨f0, f1, f2, hg, h0, h1, h2⟩ := h.cellFacets c hc
    rw [hcf, hfacets, hg]
    refine ⟨rfl, fun k hk => ?_⟩
    obtain rfl | rfl | rfl : k = 0 ∨ k = 1 ∨ k = 2 := by omega
    · exact h0
    · exact h1
    · exact h2
  · show (ofMesh m).facetCells.size = (ofMesh m).facets.size
    rw [hfc, hsize]
    exact hrep.facetCells_size
  · rw [hfc, hcf]
    exact h.facetCells_eq (hsize ▸ hf)
  · rw [hfc]
    exact h.sum_size_facetCells

/-- The topology of a mesh describes it: the facets are the distinct sorted edges in order of
first appearance, each cell's facets are its edges, each facet's cells are listed once per
occurrence in ascending order, and the boundary vertices and cells are those of the facets of a
single cell. -/
theorem ofMesh_incidence (m : Mesh ρ) : Describes m (ofMesh m) :=
  { incidence_ofMesh m with
    boundaryVertex_iff := ofMesh_isBoundaryVertex_iff m
    boundaryCell_iff := fun _ hc => ofMesh_isBoundaryCell_iff m hc }

end Topology

end MixedFem
