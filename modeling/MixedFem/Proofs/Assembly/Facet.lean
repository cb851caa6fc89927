import Mathlib.Data.Rat.BigOperators
import MixedFem.Assembly.Facet
import MixedFem.Proofs.Mesh.Counting
import MixedFem.Proofs.Space.Conforming
import MixedFem.Proofs.Sparse.Distance

/-!
# The load vector of a traction on facets

The facet load loops over the listed facets, the points of the three-point Gauss rule and the
three nodes of each facet, and adds at dofs `2 n` and `2 n + 1` of node `n` the traction at the
point, weighted by the point's weight, half the length of the facet and the segment function of
the node. Read in exact arithmetic every entry is the sum of the terms that land on it; only the
dofs of the nodes of the listed facets receive any, and those are the dofs that `locateDofs`
returns. Under a constant traction the segment functions add up to one at every point, so each
component of the load sums to the traction times half the weight sum of the rule times the total
length of the listed facets, repeats counted again.

* `modify_add_pair_entries`, `foldl_entries`, `foldlM_entries` : array folds that add to entries;
* `pointLoad`, `facetLoadEntry` : what one point, and one facet, puts on an entry;
* `assembleFacetVector_entries` : the load vector entry by entry;
* `pairwise_lt_eraseDups`, `locateDofs_eq` : the dofs of the facets, strictly increasing;
* `sum_segmentValues`, `sum_facetLoadEntry` : the load of one facet under a constant traction,
  summed over the dofs of one component;
* `facetLoadEntry_of_not_dof`, `sum_entries_of_list` : off its dofs a facet adds nothing, and
  sums of entries split over the facets;
* `VectorP2Space.make_facetNodes_lt` : the nodes of a facet are nodes of the space;
* `Vec2.norm_val`, `facetLength` : lengths over the reals;
* `Rule.exactWeightSum`, `FacetLoad`, `assembleFacetVector_constant_traction` : the main
  statement, over the reals.
-/

namespace MixedFem

open Finset
open RealScalar (ofFloat)

section Entries

variable {K : Type} [Field K] [LinearOrder K] {α : Type}

/-- Adding `a` at `i` and `b` at `i + 1` keeps the size and adds to each entry what lands on it. -/
theorem modify_add_pair_entries (v : Array (Exact K)) (i : Nat) (a b : Exact K) :
    ((v.modify i (· + a)).modify (i + 1) (· + b)).size = v.size ∧
      ∀ j < v.size, (((v.modify i (· + a)).modify (i + 1) (· + b))[j]!).val =
        (v[j]!).val + ((if i = j then a.val else 0) + (if i + 1 = j then b.val else 0)) := by
  refine ⟨by simp, fun j hj => ?_⟩
  rw [getElem!_modify _ _ _ (by simpa using hj), getElem!_modify _ _ _ hj]
  by_cases h1 : i + 1 = j
  · have h0 : i ≠ j := by omega
    simp [h0, h1]
  · by_cases h0 : i = j <;> simp [h0, h1]

/-- A fold whose every step keeps the size and adds `t j a` to each entry `j` adds the sum of the
terms. -/
theorem foldl_entries_sum (step : Array (Exact K) → α → Array (Exact K)) (t : Nat → α → K) :
    ∀ (l : List α) (v : Array (Exact K)), (∀ w a, a ∈ l → (step w a).size = w.size ∧
      ∀ j < w.size, ((step w a)[j]!).val = (w[j]!).val + t j a) →
    (l.foldl step v).size = v.size ∧
      ∀ j < v.size, ((l.foldl step v)[j]!).val = (v[j]!).val + (l.map (t j)).sum
  | [], v, _ => ⟨rfl, fun j _ => by simp⟩
  | a :: l, v, h => by
    obtain ⟨hs, he⟩ := h v a List.mem_cons_self
    obtain ⟨hs', he'⟩ := foldl_entries_sum step t l (step v a) fun w b hb =>
      h w b (List.mem_cons_of_mem a hb)
    refine ⟨by rw [List.foldl_cons, hs', hs], fun j hj => ?_⟩
    rw [List.foldl_cons, he' j (hs ▸ hj), he j hj, List.map_cons, List.sum_cons, add_assoc]

/-- `foldl_entries_sum`, with the sum of the terms given in closed form. -/
theorem foldl_entries (step : Array (Exact K) → α → Array (Exact K)) (t : Nat → α → K)
    {l : List α} {v : Array (Exact K)} {E : Nat → K} (hE : ∀ j < v.size, (l.map (t j)).sum = E j)
    (hstep : ∀ w a, a ∈ l → (step w a).size = w.size ∧
      ∀ j < w.size, ((step w a)[j]!).val = (w[j]!).val + t j a) :
    (l.foldl step v).size = v.size ∧
      ∀ j < v.size, ((l.foldl step v)[j]!).val = (v[j]!).val + E j := by
  obtain ⟨hs, he⟩ := foldl_entries_sum step t l v hstep
  exact ⟨hs, fun j hj => by rw [he j hj, hE j hj]⟩

/-- A fold that may fail, whose every step succeeds, keeps the size and adds `t j a` to each
entry `j`, succeeds and adds the sum of the terms. -/
theorem foldlM_entries_sum {ε : Type} (step : Array (Exact K) → α → Except ε (Array (Exact K)))
    (t : Nat → α → K) :
    ∀ (l : List α) (v : Array (Exact K)), (∀ w a, a ∈ l → ∃ w', step w a = .ok w' ∧
      w'.size = w.size ∧ ∀ j < w.size, (w'[j]!).val = (w[j]!).val + t j a) →
    ∃ v', l.foldlM step v = .ok v' ∧ v'.size = v.size ∧
      ∀ j < v.size, (v'[j]!).val = (v[j]!).val + (l.map (t j)).sum
  | [], v, _ => ⟨v, rfl, rfl, fun j _ => by simp⟩
  | a :: l, v, h => by
    obtain ⟨w, hw, hs, he⟩ := h v a List.mem_cons_self
    obtain ⟨v', hv', hs', he'⟩ := foldlM_entries_sum step t l w fun u b hb =>
      h u b (List.mem_cons_of_mem a hb)
    refine ⟨v', ?_, by rw [hs', hs], fun j hj => ?_⟩
    · rw [List.foldlM_cons, hw]
      exact hv'
    · rw [he' j (hs ▸ hj), he j hj, List.map_cons, List.sum_cons, add_assoc]

/-- `foldlM_entries_sum` from a given array, with the result in closed form. -/
theorem foldlM_entries {ε : Type} (step : Array (Exact K) → α → Except ε (Array (Exact K)))
    (t : Nat → α → K) {l : List α} {v : Array (Exact K)} {n : Nat} {E : Nat → K}
    (hsize : v.size = n) (hE : ∀ j < n, (v[j]!).val + (l.map (t j)).sum = E j)
    (hstep : ∀ w a, a ∈ l → ∃ w', step w a = .ok w' ∧ w'.size = w.size ∧
      ∀ j < w.size, (w'[j]!).val = (w[j]!).val + t j a) :
    ∃ v', l.foldlM step v = .ok v' ∧ v'.size = n ∧ ∀ j < v'.size, (v'[j]!).val = E j := by
  obtain ⟨v', hv', hs, he⟩ := foldlM_entries_sum step t l v hstep
  refine ⟨v', hv', hs.trans hsize, fun j hj => ?_⟩
  rw [he j (hs ▸ hj), hE j (hs.trans hsize ▸ hj)]

end Entries

section Load

variable {K : Type} [Field K] [LinearOrder K]

/-- The load that point `q` of the rule `R` puts on node `k` of the facet from `xa` to `xb`: the
traction at the point, weighted by `w_q`, by half the length of the facet and by `φ_k(s_q)`. -/
noncomputable def pointLoad (R : Rule (Exact K)) (traction : Vec2 (Exact K) → Vec2 (Exact K))
    (xa xb : Vec2 (Exact K)) (q k : Nat) : Vec2 (Exact K) :=
  let half : Exact K := Scalar.one / (Scalar.one + Scalar.one)
  let s := R.points[q]!
  let c := ofFloat (Binary64.ofFloat R.weights[q]!) * ((xb - xa).norm * half) *
    (segmentValues s)[k]!
  let f := traction (xa.scale (half * (Scalar.one - s)) + xb.scale (half * (Scalar.one + s)))
  ⟨c * f.x, c * f.y⟩

/-- What the load of the facet from `xa` to `xb` with the nodes `nodes` puts on entry `j`: each
point and node adds the first component of its load at dof `2 n` and the second at `2 n + 1`. -/
noncomputable def facetLoadEntry (R : Rule (Exact K)) (traction : Vec2 (Exact K) → Vec2 (Exact K))
    (xa xb : Vec2 (Exact K)) (nodes : Array Nat) (j : Nat) : K :=
  ∑ q ∈ range R.weights.size, ∑ k ∈ range 3,
    ((if 2 * nodes[k]! = j then (pointLoad R traction xa xb q k).x.val else 0) +
      (if 2 * nodes[k]! + 1 = j then (pointLoad R traction xa xb q k).y.val else 0))

theorem Topology.facet_eq_getElem {t : Topology} {f : Nat} (hf : f < t.facets.size) :
    t.facet f = t.facets[f] := by
  simp [Topology.facet, Array.getD_eq_getD_getElem?, hf]

/-- Read in exact arithmetic, the load vector of a run over valid facets starts from zero and each
entry collects the terms of the listed facets that land on it. -/
theorem assembleFacetVector_entries (m : Mesh (Exact K)) (t : Topology) (sp : VectorP2Space)
    {facets : List Nat} (hf : ∀ f ∈ facets, f < t.numFacets)
    (traction : Vec2 (Exact K) → Vec2 (Exact K)) {rule : Rule Float} (hr : gauss 3 = .ok rule) :
    ∃ v, assembleFacetVector m t sp facets traction = .ok v ∧ v.size = 2 * sp.numNodes ∧
      ∀ j < v.size, (v[j]!).val = (facets.map fun f =>
        facetLoadEntry (rule.mapPoints (ofFloat ∘ Binary64.ofFloat)) traction
          (m.vertex (t.facet f).1) (m.vertex (t.facet f).2)
          #[(sp.facetNodesOf f).1, (sp.facetNodesOf f).2.1, (sp.facetNodesOf f).2.2] j).sum := by
  unfold assembleFacetVector
  rw [hr]
  simp only [bind, Except.bind]
  apply foldlM_entries _ fun j f => facetLoadEntry (rule.mapPoints (ofFloat ∘ Binary64.ofFloat))
    traction (m.vertex (t.facet f).1) (m.vertex (t.facet f).2)
    #[(sp.facetNodesOf f).1, (sp.facetNodesOf f).2.1, (sp.facetNodesOf f).2.2] j
  · exact Array.size_replicate
  · intro j hj
    rw [getElem!_pos _ j (by simpa using hj), Array.getElem_replicate, Exact.val_zero, zero_add]
  · -- one facet: its vertices are read, then each point adds to the three nodes
    intro w f hfm
    have hfa : f < t.facets.size := hf f hfm
    simp only [Violation.get, dif_pos hfa]
    refine ⟨_, rfl, ?_⟩
    rw [Topology.facet_eq_getElem hfa]
    -- what the loops over the points and the nodes read of the facet
    generalize rule.mapPoints (ofFloat ∘ Binary64.ofFloat : Float → Exact K) = R
    generalize m.vertex t.facets[f].1 = xa
    generalize m.vertex t.facets[f].2 = xb
    generalize #[(sp.facetNodesOf f).1, (sp.facetNodesOf f).2.1, (sp.facetNodesOf f).2.2] = nodes
    apply foldl_entries _ fun j q => ∑ k ∈ range 3,
      ((if 2 * nodes[k]! = j then (pointLoad R traction xa xb q k).x.val else 0) +
        (if 2 * nodes[k]! + 1 = j then (pointLoad R traction xa xb q k).y.val else 0))
    · intro j _
      rw [sum_map_range]
      rfl
    · intro u q _
      apply foldl_entries _ fun j k =>
        (if 2 * nodes[k]! = j then (pointLoad R traction xa xb q k).x.val else 0) +
          (if 2 * nodes[k]! + 1 = j then (pointLoad R traction xa xb q k).y.val else 0)
      · intro j _
        rw [sum_map_range]
      · intro x k _
        exact modify_add_pair_entries x _ _ _

end Load

section Dofs

/-- A sorted list without its later repeats is strictly increasing. -/
theorem pairwise_lt_eraseDups : ∀ l : List Nat, l.Pairwise (· ≤ ·) → l.eraseDups.Pairwise (· < ·)
  | [], _ => List.Pairwise.nil
  | a :: as, h => by
    rw [List.eraseDups_cons]
    obtain ⟨ha, has⟩ := List.pairwise_cons.1 h
    refine List.pairwise_cons.2 ⟨fun b hb => ?_,
      pairwise_lt_eraseDups _ (has.sublist List.filter_sublist)⟩
    -- the later entries are at least `a`, and those equal to it were filtered out
    rw [List.mem_eraseDups, List.mem_filter] at hb
    exact lt_of_le_of_ne (ha b hb.1) fun e => by simp [e] at hb
termination_by l => l.length
decreasing_by exact Nat.lt_succ_of_le (List.length_filter_le _ _)

/-- A map that may fail and succeeds at every element gives the map of its results. -/
theorem mapM_except_eq_ok {α β ε : Type} {f : α → Except ε β} {g : α → β} :
    ∀ {l : List α}, (∀ a ∈ l, f a = .ok (g a)) → l.mapM f = .ok (l.map g)
  | [], _ => rfl
  | a :: l, h => by
    rw [List.mapM_cons, h a List.mem_cons_self,
      mapM_except_eq_ok fun b hb => h b (List.mem_cons_of_mem a hb)]
    rfl

/-- The dofs of valid facets: those of their nodes, each once and in increasing order. -/
theorem locateDofs_eq (sp : VectorP2Space) {facets : List Nat}
    (hf : ∀ f ∈ facets, f < sp.facetNodes.size) :
    ∃ dofs, locateDofs sp facets = .ok dofs ∧ dofs.toList.Pairwise (· < ·) ∧
      ∀ d, d ∈ dofs ↔ ∃ f ∈ facets, ∃ n ∈ [(sp.facetNodesOf f).1, (sp.facetNodesOf f).2.1,
        (sp.facetNodesOf f).2.2], ∃ c < 2, d = 2 * n + c := by
  unfold locateDofs
  rw [mapM_except_eq_ok (g := fun f => [(sp.facetNodesOf f).1, (sp.facetNodesOf f).2.1,
    (sp.facetNodesOf f).2.2]) fun f hfm => by
      simp [Violation.get, hf f hfm, VectorP2Space.facetNodesOf, Array.getD_eq_getD_getElem?]]
  refine ⟨_, rfl, ?_, fun d => ?_⟩
  · rw [List.toList_toArray]
    apply pairwise_lt_eraseDups
    have h := @List.pairwise_mergeSort Nat (fun a b => decide (a ≤ b))
      (fun a b c hab hbc => by simp only [decide_eq_true_eq] at *; omega)
      (fun a b => by simp only [Bool.or_eq_true, decide_eq_true_eq]; omega)
    simpa using h _
  · simp only [List.mem_toArray, List.mem_eraseDups, List.mem_mergeSort, List.mem_flatMap,
      List.mem_flatten, List.mem_map, List.mem_cons, List.not_mem_nil, or_false]
    constructor
    · rintro ⟨n, ⟨_, ⟨f, hfm, rfl⟩, hn⟩, hd⟩
      exact ⟨f, hfm, n, by simpa using hn, by rcases hd with rfl | rfl <;> simp⟩
    · rintro ⟨f, hfm, n, hn, c, hc, rfl⟩
      exact ⟨n, ⟨_, ⟨f, hfm, rfl⟩, by simpa using hn⟩, by omega⟩

end Dofs

section NodeSums

variable {M : Type} [AddCommMonoid M]

/-- Of the dofs `2 n` of the first `N` nodes, only that of node `a` is a dof of node `a`. -/
theorem sum_range_dof_x {a N : Nat} (ha : a < N) (X Y : M) :
    ∑ n ∈ range N, ((if 2 * a = 2 * n then X else 0) + (if 2 * a + 1 = 2 * n then Y else 0)) =
      X := by
  have h0 : ∑ n ∈ range N, (if 2 * a + 1 = 2 * n then Y else 0) = 0 :=
    sum_eq_zero fun n _ => if_neg (by omega)
  have h1 : ∑ n ∈ range N, (if 2 * a = 2 * n then X else 0) = X := by
    rw [sum_congr rfl fun n _ => if_congr (by omega : 2 * a = 2 * n ↔ a = n) rfl rfl, sum_ite_eq,
      if_pos (mem_range.2 ha)]
  rw [sum_add_distrib, h0, h1, add_zero]

/-- Of the dofs `2 n + 1` of the first `N` nodes, only that of node `a` is a dof of node `a`. -/
theorem sum_range_dof_y {a N : Nat} (ha : a < N) (X Y : M) :
    ∑ n ∈ range N,
        ((if 2 * a = 2 * n + 1 then X else 0) + (if 2 * a + 1 = 2 * n + 1 then Y else 0)) = Y := by
  have h0 : ∑ n ∈ range N, (if 2 * a = 2 * n + 1 then X else 0) = 0 :=
    sum_eq_zero fun n _ => if_neg (by omega)
  have h1 : ∑ n ∈ range N, (if 2 * a + 1 = 2 * n + 1 then Y else 0) = Y := by
    rw [sum_congr rfl fun n _ => if_congr (by omega : 2 * a + 1 = 2 * n + 1 ↔ a = n) rfl rfl,
      sum_ite_eq, if_pos (mem_range.2 ha)]
  rw [sum_add_distrib, h0, h1, zero_add]

variable {N : Nat} {nodes : Array Nat} (hn : ∀ k < 3, nodes[k]! < N) (X Y : Nat → M)
include hn

/-- What three nodes among the first `N` take on the dofs `2 n`: the first components. -/
theorem sum_range_dofs_x :
    ∑ n ∈ range N, ∑ k ∈ range 3, ((if 2 * nodes[k]! = 2 * n then X k else 0) +
      (if 2 * nodes[k]! + 1 = 2 * n then Y k else 0)) = ∑ k ∈ range 3, X k := by
  rw [sum_comm]
  exact sum_congr rfl fun k hk => sum_range_dof_x (hn k (mem_range.1 hk)) _ _

/-- What three nodes among the first `N` take on the dofs `2 n + 1`: the second components. -/
theorem sum_range_dofs_y :
    ∑ n ∈ range N, ∑ k ∈ range 3, ((if 2 * nodes[k]! = 2 * n + 1 then X k else 0) +
      (if 2 * nodes[k]! + 1 = 2 * n + 1 then Y k else 0)) = ∑ k ∈ range 3, Y k := by
  rw [sum_comm]
  exact sum_congr rfl fun k hk => sum_range_dof_y (hn k (mem_range.1 hk)) _ _

end NodeSums

section Sums

variable {K : Type} [Field K] [LinearOrder K] [IsStrictOrderedRing K]

/-- The segment functions add up to one at every point. -/
theorem sum_segmentValues (s : Exact K) : ∑ k ∈ range 3, ((segmentValues s)[k]!).val = 1 := by
  simp [Finset.sum_range_succ, segmentValues]
  ring

variable (R : Rule (Exact K)) (g xa xb : Vec2 (Exact K))

/-- Under a constant traction a point gives its three nodes together the traction weighted by
its weight and half the length of the facet. -/
theorem sum_pointLoad_const (q : Nat) :
    ∑ k ∈ range 3, (pointLoad R (fun _ => g) xa xb q k).x.val =
        (ofFloat (Binary64.ofFloat R.weights[q]!) : Exact K).val * ((xb - xa).norm.val / 2) *
          g.x.val ∧
      ∑ k ∈ range 3, (pointLoad R (fun _ => g) xa xb q k).y.val =
        (ofFloat (Binary64.ofFloat R.weights[q]!) : Exact K).val * ((xb - xa).norm.val / 2) *
          g.y.val := by
  have hhalf : ((Scalar.one : Exact K) / (Scalar.one + Scalar.one)).val = 1 / 2 := by
    simp only [Exact.val_div, Exact.val_add, Exact.val_one]
    norm_num
  simp only [pointLoad, Exact.val_mul, hhalf]
  constructor <;> rw [← sum_mul, ← mul_sum, sum_segmentValues] <;> ring

/-- The load of one facet under a constant traction, summed over the dofs of one component of the
first `N` nodes, when they hold the nodes of the facet. -/
theorem sum_facetLoadEntry {nodes : Array Nat} {N : Nat} (hn : ∀ k < 3, nodes[k]! < N) :
    ∑ n ∈ range N, facetLoadEntry R (fun _ => g) xa xb nodes (2 * n) =
        (xb - xa).norm.val / 2 * g.x.val *
          ∑ q ∈ range R.weights.size, (ofFloat (Binary64.ofFloat R.weights[q]!) : Exact K).val ∧
      ∑ n ∈ range N, facetLoadEntry R (fun _ => g) xa xb nodes (2 * n + 1) =
        (xb - xa).norm.val / 2 * g.y.val *
          ∑ q ∈ range R.weights.size, (ofFloat (Binary64.ofFloat R.weights[q]!) : Exact K).val := by
  unfold facetLoadEntry
  -- sum over the nodes first: each term of a point and a local node lands on one node
  rw [sum_comm, sum_comm (s := range N)]
  simp only [sum_range_dofs_x hn, sum_range_dofs_y hn, mul_sum]
  constructor <;> refine sum_congr rfl fun q _ => ?_
  · rw [(sum_pointLoad_const R g xa xb q).1]
    ring
  · rw [(sum_pointLoad_const R g xa xb q).2]
    ring

end Sums

section FacetSums

variable {K : Type} [Field K] [LinearOrder K]

/-- An entry that is no dof of the nodes of a facet receives nothing from the facet. -/
theorem facetLoadEntry_of_not_dof (R : Rule (Exact K)) (traction : Vec2 (Exact K) → Vec2 (Exact K))
    (xa xb : Vec2 (Exact K)) {nodes : Array Nat} {j : Nat}
    (h : ∀ k < 3, ∀ c < 2, j ≠ 2 * nodes[k]! + c) : facetLoadEntry R traction xa xb nodes j = 0 :=
  sum_eq_zero fun q _ => sum_eq_zero fun k hk => by
    have h0 := h k (mem_range.1 hk) 0 (by omega)
    have h1 := h k (mem_range.1 hk) 1 (by omega)
    rw [if_neg (by omega), if_neg (by omega), add_zero]

omit [LinearOrder K] in
/-- A sum over a range of sums along a list is the sum along the list of the range sums. -/
theorem sum_range_list_sum {ι : Type} (l : List ι) (F : ι → Nat → K) (N : Nat) :
    ∑ n ∈ range N, (l.map fun a => F a n).sum = (l.map fun a => ∑ n ∈ range N, F a n).sum := by
  induction l with
  | nil => simp
  | cons a l ih => simp only [List.map_cons, List.sum_cons, sum_add_distrib, ih]

/-- Entries that collect terms from the elements of a list, summed over indices `idx n`: each
element gives its own sum. -/
theorem sum_entries_of_list {ι : Type} {l : List ι} {v : Array (Exact K)} {E : ι → Nat → K}
    (hv : ∀ j < v.size, (v[j]!).val = (l.map fun a => E a j).sum) {idx : Nat → Nat} {N : Nat}
    (hidx : ∀ n < N, idx n < v.size) {c : K} {L : ι → K}
    (hl : ∀ a ∈ l, ∑ n ∈ range N, E a (idx n) = c * L a) :
    ∑ n ∈ range N, (v[idx n]!).val = c * (l.map L).sum := by
  calc ∑ n ∈ range N, (v[idx n]!).val = ∑ n ∈ range N, (l.map fun a => E a (idx n)).sum :=
        sum_congr rfl fun n hn => hv _ (hidx n (mem_range.1 hn))
    _ = (l.map fun a => ∑ n ∈ range N, E a (idx n)).sum := sum_range_list_sum l _ N
    _ = (l.map fun a => c * L a).sum := congrArg List.sum (List.map_congr_left hl)
    _ = c * (l.map L).sum := List.sum_map_mul_left l L c

end FacetSums

/-- Each of the first three entries of a literal array of three is one of the three. -/
theorem getElem!_triple_mem {a b c k : Nat} (hk : k < 3) : #[a, b, c][k]! ∈ [a, b, c] := by
  obtain rfl | rfl | rfl : k = 0 ∨ k = 1 ∨ k = 2 := by omega
  all_goals simp

namespace VectorP2Space

variable {ρ : Type} {m : Mesh ρ}

/-- The nodes of a facet of the topology of a mesh whose cells name its vertices are nodes of
the space: its two vertices, and its midpoint node. -/
theorem make_facetNodes_lt {f : Nat}
    (hf : f < (Topology.ofMesh m).numFacets) :
    ∀ n ∈ [((Topology.ofMesh m).facet f).1, ((Topology.ofMesh m).facet f).2, m.numVertices + f],
      n < (make m (Topology.ofMesh m)).numNodes := by
  have hmem : (Topology.ofMesh m).facet f ∈ (Topology.ofMesh m).facets := by
    rw [Topology.facet_eq_getElem hf]
    exact Array.getElem_mem hf
  obtain ⟨c, hc, k, -, hk⟩ := Topology.ofMesh_facet_edge m hmem
  have hends := Mesh.edgeKey_lt hc k
  rw [hk] at hends
  rw [make_numNodes]
  intro n hn
  simp only [List.mem_cons, List.not_mem_nil, or_false] at hn
  rcases hn with rfl | rfl | rfl <;> omega

end VectorP2Space

section Real

/-- The square root of the library is the real square root on nonnegative reals. -/
theorem Exact.sqrt_eq_real_sqrt {x : ℝ} (hx : 0 ≤ x) : Exact.sqrt x = Real.sqrt x := by
  obtain ⟨h0, hsq⟩ := Exact.sqrt_spec_real hx
  exact ((Real.sqrt_eq_iff_mul_self_eq hx h0).2 hsq.symm).symm

/-- The length of a vector, read over the reals. -/
theorem Vec2.norm_val (a : Vec2 (Exact ℝ)) :
    a.norm.val = Real.sqrt (a.x.val * a.x.val + a.y.val * a.y.val) :=
  Exact.sqrt_eq_real_sqrt (add_nonneg (mul_self_nonneg _) (mul_self_nonneg _))

/-- The length of facet `f` of the topology of a mesh: the distance of its two vertices. -/
noncomputable def facetLength (m : Mesh (Exact ℝ)) (f : Nat) : ℝ :=
  let xa := m.vertex ((Topology.ofMesh m).facet f).1
  let xb := m.vertex ((Topology.ofMesh m).facet f).2
  Real.sqrt ((xb.x.val - xa.x.val) * (xb.x.val - xa.x.val) +
    (xb.y.val - xa.y.val) * (xb.y.val - xa.y.val))

/-- The weight sum of a rule, each weight read exactly as the double it is stored as. -/
def Rule.exactWeightSum (r : Rule Float) : ℚ :=
  ∑ q ∈ range r.weights.size, floatValue (Binary64.ofFloat r.weights[q]!)

/-- The three-point Gauss rule is available. -/
theorem gauss_three_ok : ∃ r, gauss 3 = .ok r := by
  simp [gauss, Violation.require, bind, Except.bind, pure, Except.pure]

/-- What the load vector `v` of the constant traction `g` over the listed facets of the mesh `m`
is, with `dofs` the dofs of those facets and `W` the weight sum of the rule: zero off the dofs,
each component summing to the traction times `W / 2` times the total length of the facets, and
the dofs, strictly increasing, those of the nodes of the facets. -/
structure FacetLoad (m : Mesh (Exact ℝ)) (facets : List Nat) (g : Vec2 (Exact ℝ)) (W : ℝ)
    (v : Array (Exact ℝ)) (dofs : Array Nat) : Prop where
  size_eq : v.size = 2 * (m.numVertices + (Topology.ofMesh m).numFacets)
  zero_off : ∀ i < v.size, i ∉ dofs → (v[i]!).val = 0
  sum_x : ∑ n ∈ range (m.numVertices + (Topology.ofMesh m).numFacets), (v[2 * n]!).val =
    g.x.val * (W / 2) * (facets.map (facetLength m)).sum
  sum_y : ∑ n ∈ range (m.numVertices + (Topology.ofMesh m).numFacets), (v[2 * n + 1]!).val =
    g.y.val * (W / 2) * (facets.map (facetLength m)).sum
  dofs_sorted : dofs.toList.Pairwise (· < ·)
  mem_dofs : ∀ d, d ∈ dofs ↔ ∃ f ∈ facets, ∃ n ∈ [((Topology.ofMesh m).facet f).1,
    ((Topology.ofMesh m).facet f).2, m.numVertices + f], ∃ c < 2, d = 2 * n + c

/-- The load of one facet under a constant traction, summed over the dofs of one component of
the nodes of the space. -/
theorem sum_facetLoadEntry_facet (m : Mesh (Exact ℝ)) {f : Nat}
    (hf : f < (Topology.ofMesh m).numFacets) {rule : Rule Float} (g : Vec2 (Exact ℝ)) :
    let R := rule.mapPoints (ofFloat ∘ Binary64.ofFloat)
    let xa := m.vertex ((Topology.ofMesh m).facet f).1
    let xb := m.vertex ((Topology.ofMesh m).facet f).2
    let nodes := #[((Topology.ofMesh m).facet f).1, ((Topology.ofMesh m).facet f).2,
      m.numVertices + f]
    ∑ n ∈ range (m.numVertices + (Topology.ofMesh m).numFacets),
        facetLoadEntry R (fun _ => g) xa xb nodes (2 * n) =
      g.x.val * (rule.exactWeightSum / 2) * facetLength m f ∧
    ∑ n ∈ range (m.numVertices + (Topology.ofMesh m).numFacets),
        facetLoadEntry R (fun _ => g) xa xb nodes (2 * n + 1) =
      g.y.val * (rule.exactWeightSum / 2) * facetLength m f := by
  intro R xa xb nodes
  have hn : ∀ k < 3, nodes[k]! < m.numVertices + (Topology.ofMesh m).numFacets := fun k hk =>
    VectorP2Space.make_numNodes (m := m) ▸
      VectorP2Space.make_facetNodes_lt hf _ (getElem!_triple_mem hk)
  -- the weights of the rule are read as the doubles they are, and the length is the norm
  have hW : ∑ q ∈ range R.weights.size, (ofFloat (Binary64.ofFloat R.weights[q]!) : Exact ℝ).val =
      (rule.exactWeightSum : ℝ) := by
    simp only [Exact.val_ofFloat, Rule.exactWeightSum, Rat.cast_sum]
    rfl
  have hL : (xb - xa).norm.val = facetLength m f := Vec2.norm_val _
  obtain ⟨hx, hy⟩ := sum_facetLoadEntry R g xa xb hn
  rw [hx, hy, hW, hL]
  constructor <;> ring

/-- Read over the reals, the load of a constant traction over valid facets of a mesh whose cells
name its vertices, repeats allowed, is computed, and so are the dofs of the facets: the load
vanishes off those dofs, and each of its components sums to the traction times half the weight
sum of the three-point rule times the total length of the listed facets. -/
theorem assembleFacetVector_constant_traction (m : Mesh (Exact ℝ)) {facets : List Nat}
    (hf : ∀ f ∈ facets, f < (Topology.ofMesh m).numFacets)
    (g : Vec2 (Exact ℝ)) :
    ∃ rule v dofs, gauss 3 = .ok rule ∧
      assembleFacetVector m (Topology.ofMesh m) (VectorP2Space.make m (Topology.ofMesh m)) facets
        (fun _ => g) = .ok v ∧
      locateDofs (VectorP2Space.make m (Topology.ofMesh m)) facets = .ok dofs ∧
      FacetLoad m facets g rule.exactWeightSum v dofs := by
  obtain ⟨rule, hr⟩ := gauss_three_ok
  obtain ⟨v, hv, hsize, hentries⟩ := assembleFacetVector_entries m (Topology.ofMesh m)
    (VectorP2Space.make m (Topology.ofMesh m)) hf (fun _ => g) hr
  rw [VectorP2Space.make_numNodes] at hsize
  have hfn : ∀ f ∈ facets, f < (VectorP2Space.make m (Topology.ofMesh m)).facetNodes.size :=
    fun f hfm => by simpa [VectorP2Space.make, Topology.numFacets] using hf f hfm
  obtain ⟨dofs, hd, hsorted, hmem⟩ := locateDofs_eq (VectorP2Space.make m (Topology.ofMesh m)) hfn
  -- the nodes of a listed facet are its two vertices and its midpoint node
  have hnodes : ∀ f ∈ facets, (VectorP2Space.make m (Topology.ofMesh m)).facetNodesOf f =
      (((Topology.ofMesh m).facet f).1, ((Topology.ofMesh m).facet f).2, m.numVertices + f) :=
    fun f hfm => VectorP2Space.make_facetNodesOf (hf f hfm)
  have hdofs : ∀ d, d ∈ dofs ↔ ∃ f ∈ facets, ∃ n ∈ [((Topology.ofMesh m).facet f).1,
      ((Topology.ofMesh m).facet f).2, m.numVertices + f], ∃ c < 2, d = 2 * n + c := fun d =>
    (hmem d).trans (exists_congr fun f => and_congr_right fun hfm => by rw [hnodes f hfm])
  refine ⟨rule, v, dofs, hr, hv, hd, hsize, fun i hi hoff => ?_, ?_, ?_, hsorted, hdofs⟩
  · -- no listed facet puts anything on an entry off the dofs
    rw [hentries i hi]
    refine List.sum_eq_zero fun x hx => ?_
    obtain ⟨f, hfm, rfl⟩ := List.mem_map.1 hx
    refine facetLoadEntry_of_not_dof _ _ _ _ fun k hk c hc e =>
      hoff ((hdofs i).2 ⟨f, hfm, _, ?_, c, hc, e⟩)
    rw [hnodes f hfm]
    exact getElem!_triple_mem hk
  · refine sum_entries_of_list hentries (fun n hn => by omega) fun f hfm => ?_
    rw [hnodes f hfm]
    exact (sum_facetLoadEntry_facet m (hf f hfm) g).1
  · refine sum_entries_of_list hentries (fun n hn => by omega) fun f hfm => ?_
    rw [hnodes f hfm]
    exact (sum_facetLoadEntry_facet m (hf f hfm) g).2

/-- The unit square cut along a diagonal, over the reals, under the traction `(1, 2)` on its
bottom and top facets, the top one listed twice. -/
theorem assembleFacetVector_constant_traction_square :
    let m : Mesh (Exact ℝ) := ⟨#[⟨.mk 0, .mk 0⟩, ⟨.mk 1, .mk 0⟩, ⟨.mk 1, .mk 1⟩, ⟨.mk 0, .mk 1⟩],
      #[⟨0, 1, 2⟩, ⟨0, 2, 3⟩], by decide⟩
    (Topology.ofMesh m).numFacets = 5 ∧
      ∃ rule v dofs, gauss 3 = .ok rule ∧
        assembleFacetVector m (Topology.ofMesh m) (VectorP2Space.make m (Topology.ofMesh m))
          [0, 3, 3] (fun _ => ⟨.mk 1, .mk 2⟩) = .ok v ∧
        locateDofs (VectorP2Space.make m (Topology.ofMesh m)) [0, 3, 3] = .ok dofs ∧
        FacetLoad m [0, 3, 3] ⟨.mk 1, .mk 2⟩ rule.exactWeightSum v dofs := by
  intro m
  have hn : (Topology.ofMesh m).numFacets = 5 := by
    rw [Topology.ofMesh_numFacets]
    decide
  exact ⟨hn, assembleFacetVector_constant_traction m (by rw [hn]; decide) _⟩

end Real

end MixedFem
