import MixedFem.Kernel.Elasticity
import MixedFem.Proofs.Assembly.Scatter
import MixedFem.Proofs.Sparse.Coordinates

/-!
# Global assembly

Assembly builds the pattern of all positions that couple a test dof and a trial dof of one cell,
tabulates every cell, and adds each element tensor to the matrix. Main statement
(`assembly_scatters_element_tensors`): the assembled matrix stores exactly the coupled positions,
and the value at `(r, s)` is the scatter sum of the element tensors, the sum over cells and local
positions `(i, j)` with test dof `r` and trial dof `s`; a failed check or tabulation is
returned before anything is added.

* `FunctionSpace.DofsInRange` : each cell lists `localDim` dofs below `numDofs`, as the spaces of
  a mesh do (`tensorDg1_dofsInRange`);
* `Coupled`, `scatterSum` : the coupled positions and the scatter sum;
* `tabulateCells_eq_ok`, `tabulateCells_error` : the tabulation in any order of the cells;
* `assemblePattern_eq_ok` : the pattern of the spaces is valid and stores the coupled positions;
* `assembleInto_past_checks` : past its checks, `assembleInto` reserves the tensors, tabulates
  and adds;
* `addElements_eq_ok`, `assembleInto_eq_ok`, `assemble_eq_ok` : the sums, offset by offset and
  then entry by entry;
* `assembleInto_kernelShape`, `assembleInto_cellCount`, `assembleInto_matrixShape`,
  `assembleInto_capacity`, `assembleInto_tabulation_some`, `assembleInto_tabulation` : the
  failures, in the order of the checks.
-/

namespace MixedFem

open SparsityPattern

namespace FunctionSpace

/-- Every cell lists `localDim` degrees of freedom, each below `numDofs`. -/
def DofsInRange (sp : FunctionSpace) : Prop :=
  ∀ c < sp.numCells, (sp.dofsOf c).size = sp.localDim ∧ ∀ d ∈ (sp.dofsOf c).toList, d < sp.numDofs

instance : DecidablePred DofsInRange := fun sp =>
  inferInstanceAs (Decidable (∀ c < sp.numCells,
    (sp.dofsOf c).size = sp.localDim ∧ ∀ d ∈ (sp.dofsOf c).toList, d < sp.numDofs))

theorem cellDofs_eq_ok {sp : FunctionSpace} {c : Nat} (hc : c < sp.numCells) :
    sp.cellDofs c sp.localDim = .ok (sp.dofsOf c) := by
  have h : ∃ d, sp.cellDofs c sp.localDim = .ok d := by
    cases sp with
    | vectorP2 s =>
      simp only [numCells] at hc
      simp [cellDofs, Violation.requireEq, Violation.get, hc, bind, Except.bind, pure, Except.pure]
    | tensorDg1 n => simp [cellDofs, Violation.requireEq, bind, Except.bind, pure, Except.pure]
  obtain ⟨d, hd⟩ := h
  rw [hd, dofsOf, hd]

/-- The dofs of the discontinuous tensors are in range: `9 c + i` below `9 n`, or wrapped below `2^64`. -/
theorem tensorDg1_dofsInRange (n : Nat) : (tensorDg1 n).DofsInRange := by
  intro c hc
  simp only [numCells] at hc
  have hd : (tensorDg1 n).dofsOf c = Array.ofFn (n := 9) fun i => (9 * c + i.val) % Nat.pow 2 64 :=
    rfl
  rw [hd]
  refine ⟨by simp [localDim], fun d hd => ?_⟩
  simp only [Array.toList_ofFn, List.mem_ofFn] at hd
  obtain ⟨i, rfl⟩ := hd
  simp only [numDofs]
  by_cases hbig : 9 * n ≤ Nat.pow 2 64
  · rw [Nat.mod_eq_of_lt (by omega)]
    omega
  · exact Nat.lt_of_lt_of_le (Nat.mod_lt _ (by decide)) (by omega)

end FunctionSpace

section Tabulation

/-- Writes at the listed cells, read back: a listed index inside the array holds its tensor. -/
theorem getElem?_foldl_set! {α : Type} (T : Nat → α) :
    ∀ (l : List Nat) (ts : Array α) (i : Nat),
      (l.foldl (fun ts c => ts.set! c (T c)) ts)[i]? =
        if i ∈ l ∧ i < ts.size then some (T i) else ts[i]?
  | [], ts, i => by simp
  | c :: l, ts, i => by
    rw [List.foldl_cons, getElem?_foldl_set! T l, Array.set!_eq_setIfInBounds,
      Array.size_setIfInBounds, Array.getElem?_setIfInBounds]
    by_cases hc : c = i
    · subst hc
      by_cases hi : c < ts.size <;> simp [hi]
    · simp [hc, Ne.symm hc]

variable {ρ : Type} [RealScalar ρ] {k : ElementKernel ρ} {mesh : Mesh ρ}

/-- When every cell of the order tabulates, the tensors are those of the cells, whatever the
order, provided it reaches every cell and no other. -/
theorem tabulateCells_eq_ok {order : List Nat} (hcover : ∀ c, c ∈ order ↔ c < mesh.numCells)
    (T : Nat → Matrix ρ) (htab : ∀ c < mesh.numCells, k.tabulate ⟨c, mesh.cellTriangle c⟩ = .ok (T c)) :
    tabulateCells k mesh order = .ok ((List.range mesh.numCells).map T).toArray := by
  have hstep : ∀ ts c, c ∈ order → True →
      tabulateCell k mesh ts c = .ok (ts.set! c (T c)) ∧ True := fun ts c hc _ => by
    simp only [tabulateCell, htab c ((hcover c).1 hc), bind, Except.bind, pure, Except.pure,
      and_true]
  rw [tabulateCells, foldlM_except_eq_foldl (I := fun _ => True) _ (fun ts c => ts.set! c (T c))
    order _ trivial hstep]
  congr 1
  refine Array.ext_getElem? fun i => ?_
  rw [getElem?_foldl_set!, Array.size_replicate]
  by_cases hi : i < mesh.numCells <;> simp [hi, hcover]

end Tabulation

section Global

open FunctionSpace

/-- Test dof `r` and trial dof `s` belong to one of the first `n` cells. -/
def Coupled (test trial : FunctionSpace) (n r s : Nat) : Prop :=
  ∃ c < n, r ∈ (test.dofsOf c).toList ∧ s ∈ (trial.dofsOf c).toList

variable {K : Type} [Field K] [LinearOrder K]

/-- The element tensors `T c` of the first `n` cells summed at `(r, s)`: every local position
`(i, j)` of a cell whose test dof is `r` and trial dof is `s` adds its entry. -/
def scatterSum (test trial : FunctionSpace) (n : Nat) (T : Nat → Matrix (Exact K)) (r s : Nat) : K :=
  ∑ c ∈ Finset.range n, ∑ i ∈ Finset.range test.localDim, ∑ j ∈ Finset.range trial.localDim,
    if (test.dofsOf c)[i]! = r ∧ (trial.dofsOf c)[j]! = s then ((T c).get i j).val else 0

theorem getElem!_mem_toList {xs : Array Nat} {i : Nat} (h : i < xs.size) : xs[i]! ∈ xs.toList := by
  rw [getElem!_pos xs i h]
  exact Array.getElem_mem_toList h

variable {a : Csr (Exact K)} {mesh : Mesh (Exact K)} {test trial : FunctionSpace}
  {k : ElementKernel (Exact K)}

/-- Past its checks, `assembleInto` reserves room for the tensors of all cells, tabulates the cells
in the order given and adds the tensors. -/
theorem assembleInto_past_checks (hshape : k.shape = (test.localDim, trial.localDim))
    (htest : test.numCells = mesh.numCells) (htrial : trial.numCells = mesh.numCells)
    (hrows : a.nrows = test.numDofs) (hcols : a.ncols = trial.numDofs) (order : List Nat) :
    assembleInto a mesh test trial k order = (do
      Failure.lift (Violation.require
        ((mesh.numCells * (test.localDim * trial.localDim)) % Nat.pow 2 64 < Nat.pow 2 60)
        "capacity overflow")
      let tensors ← (tabulateCells k mesh order).mapError (Failure.error ∘ AssemblyError.tabulation)
      let values ← Failure.lift
        (((List.range mesh.numCells).zip tensors.toList).foldlM (addElement a test trial) a.values)
      pure { a with values }) := by
  simp only [assembleInto, hshape, htest, htrial, hrows, hcols, ne_eq, not_true_eq_false, if_false,
    decide_false, Bool.or_false, Bool.false_eq_true, bind, Except.bind, pure, Except.pure]

/-- Once its checks pass and the tensors have room, `assembleInto` tabulates the cells in the
order given and adds the tensors. -/
theorem assembleInto_of_checks (hshape : k.shape = (test.localDim, trial.localDim))
    (htest : test.numCells = mesh.numCells) (htrial : trial.numCells = mesh.numCells)
    (hrows : a.nrows = test.numDofs) (hcols : a.ncols = trial.numDofs)
    (hroom : mesh.numCells * (test.localDim * trial.localDim) < Nat.pow 2 60) (order : List Nat) :
    assembleInto a mesh test trial k order = (do
      let tensors ← (tabulateCells k mesh order).mapError (Failure.error ∘ AssemblyError.tabulation)
      let values ← Failure.lift
        (((List.range mesh.numCells).zip tensors.toList).foldlM (addElement a test trial) a.values)
      pure { a with values }) := by
  have hwrap : (mesh.numCells * (test.localDim * trial.localDim)) % Nat.pow 2 64 < Nat.pow 2 60 := by
    rw [Nat.mod_eq_of_lt (Nat.lt_trans hroom (by decide))]
    exact hroom
  rw [assembleInto_past_checks hshape htest htrial hrows hcols]
  simp only [Violation.require, hwrap, decide_true, if_true, Failure.lift, Except.mapError, bind,
    Except.bind, pure, Except.pure]

/-- Past its checks, `assembleInto` refuses tensors of `2^60` values or more (their count taken
in a machine word) with the reservation's panic, before any tabulation. -/
theorem assembleInto_capacity (hshape : k.shape = (test.localDim, trial.localDim))
    (htest : test.numCells = mesh.numCells) (htrial : trial.numCells = mesh.numCells)
    (hrows : a.nrows = test.numDofs) (hcols : a.ncols = trial.numDofs) (order : List Nat)
    (hover : Nat.pow 2 60 ≤ (mesh.numCells * (test.localDim * trial.localDim)) % Nat.pow 2 64) :
    assembleInto a mesh test trial k order = .error (.violation (.unmet "capacity overflow")) := by
  rw [assembleInto_past_checks hshape htest htrial hrows hcols]
  simp only [Violation.require, Nat.not_lt.2 hover, decide_false, Bool.false_eq_true, if_false,
    Failure.lift, Except.mapError, bind, Except.bind]

/-- The tensors of the first `n` cells added one after another: at each offset, every cell
adds the entries whose test dof's row holds the offset and whose trial dof is its column. -/
theorem addElements_eq_ok (hp : a.pattern.Valid) (n : Nat) (T : Nat → Matrix (Exact K))
    (hnt : n ≤ test.numCells) (hnr : n ≤ trial.numCells)
    (hnodup : ∀ c < n, (trial.dofsOf c).toList.Nodup)
    (hstored : ∀ r s, Coupled test trial n r s → a.pattern.Stores r s) (v : Array (Exact K)) :
    ∃ v', ((List.range n).zip ((List.range n).map T)).foldlM (addElement a test trial) v = .ok v' ∧
      v'.size = v.size ∧ ∀ q < v.size, (v'[q]!).val = (v[q]!).val + ∑ c ∈ Finset.range n,
        ∑ i ∈ Finset.range (test.dofsOf c).size, ∑ j ∈ Finset.range (trial.dofsOf c).size,
          if a.pattern.offset (test.dofsOf c)[i]! ≤ q ∧
            q < a.pattern.offset ((test.dofsOf c)[i]! + 1) ∧
            a.pattern.colIndices[q]! = (trial.dofsOf c)[j]! then ((T c).get i j).val else 0 := by
  rw [← List.map_prod_left_eq_zip, List.foldlM_map]
  refine foldlM_range_invariant (N := n) (P := fun J (w : Array (Exact K)) => w.size = v.size ∧
      ∀ q < v.size, (w[q]!).val = (v[q]!).val + ∑ c ∈ Finset.range J,
        ∑ i ∈ Finset.range (test.dofsOf c).size, ∑ j ∈ Finset.range (trial.dofsOf c).size,
          if a.pattern.offset (test.dofsOf c)[i]! ≤ q ∧
            q < a.pattern.offset ((test.dofsOf c)[i]! + 1) ∧
            a.pattern.colIndices[q]! = (trial.dofsOf c)[j]! then ((T c).get i j).val else 0)
    (fun w J hJ ⟨hw, hwv⟩ => ?_) ⟨rfl, fun q _ => by simp⟩ n (Nat.le_refl _)
  obtain ⟨w', hw', hsize, hval⟩ := addElement_eq_ok hp (cellDofs_eq_ok (by omega))
    (cellDofs_eq_ok (by omega)) (hnodup J hJ)
    (fun i hi j hj => hstored _ _ ⟨J, hJ, getElem!_mem_toList hi, getElem!_mem_toList hj⟩) (T J) w
  refine ⟨w', hw', hsize.trans hw, fun q hq => ?_⟩
  rw [hval q (hw ▸ hq), hwv q hq, Finset.sum_range_succ, add_assoc]

/-- Adding every element tensor to a matrix whose pattern holds all coupled positions: the
pattern stays, and each stored entry gains the scatter sum of its position. -/
theorem assembleInto_eq_ok (ha : a.Valid) (hshape : k.shape = (test.localDim, trial.localDim))
    (htest : test.numCells = mesh.numCells) (htrial : trial.numCells = mesh.numCells)
    (hrows : a.nrows = test.numDofs) (hcols : a.ncols = trial.numDofs)
    (hdt : test.DofsInRange) (hdr : trial.DofsInRange)
    (hnodup : ∀ c < mesh.numCells, (trial.dofsOf c).toList.Nodup)
    (hstored : ∀ r s, Coupled test trial mesh.numCells r s → a.pattern.Stores r s)
    (hroom : mesh.numCells * (test.localDim * trial.localDim) < Nat.pow 2 60)
    (T : Nat → Matrix (Exact K))
    (htab : ∀ c < mesh.numCells, k.tabulate ⟨c, mesh.cellTriangle c⟩ = .ok (T c))
    {order : List Nat} (hcover : ∀ c, c ∈ order ↔ c < mesh.numCells) :
    ∃ a', assembleInto a mesh test trial k order = .ok a' ∧ a'.pattern = a.pattern ∧
      a'.values.size = a.values.size ∧
      ∀ r s, a'.get? r s = (a.get? r s).map (· + Exact.mk (scatterSum test trial mesh.numCells T r s)) := by
  obtain ⟨hp, hnnz⟩ := ha
  obtain ⟨v, hv, hsize, hval⟩ := addElements_eq_ok hp mesh.numCells T (by omega) (by omega) hnodup
    hstored a.values
  refine ⟨{ a with values := v }, ?_, rfl, hsize, fun r s => ?_⟩
  · rw [assembleInto_of_checks hshape htest htrial hrows hcols hroom, tabulateCells_eq_ok hcover T htab]
    simp only [Except.mapError, Failure.lift, hv, bind, Except.bind, pure, Except.pure]
  by_cases hst : a.pattern.Stores r s
  · obtain ⟨hr, hs⟩ := hst
    obtain ⟨q, hq₁, hq₂, rfl⟩ := (hp.mem_rowCols_iff hr).1 hs
    have hq : q < a.values.size := by
      have := hp.offset_le_nnz (i := r + 1) (by omega)
      rw [hnnz]
      simp only [Csr.nnz]
      omega
    rw [Csr.get?_offset hp hr hq₁ hq₂, Csr.get?_offset (a := { a with values := v }) hp hr hq₁ hq₂,
      Option.map_some]
    congr 1
    apply Exact.ext
    rw [Exact.val_add, Exact.val_mk, hval q hq, scatterSum]
    congr 1
    -- a cell's term at offset `q` is that of its local rows whose dof is `r`, the row of `q`
    refine Finset.sum_congr rfl fun c hc => ?_
    have hc' : c < mesh.numCells := Finset.mem_range.1 hc
    rw [(hdt c (by omega)).1, (hdr c (by omega)).1]
    refine Finset.sum_congr rfl fun i _ => Finset.sum_congr rfl fun j _ => if_congr ?_ rfl rfl
    rw [← and_assoc, hp.mem_row_iff hr ⟨hq₁, hq₂⟩, eq_comm (a := a.pattern.colIndices[q]!)]
  · rw [Csr.get?_eq_none hp hst, Csr.get?_eq_none (a := { a with values := v }) hp hst]
    rfl

variable (order : List Nat)

theorem mem_foldl_push_row (i : Nat) : ∀ (l : List Nat) (acc : Array (Nat × Nat)) (x : Nat × Nat),
    x ∈ (l.foldl (fun acc j => acc.push (i, j)) acc).toList ↔ x ∈ acc.toList ∨ x.1 = i ∧ x.2 ∈ l
  | [], acc, x => by simp
  | j :: l, acc, x => by
    obtain ⟨x₁, x₂⟩ := x
    rw [List.foldl_cons, mem_foldl_push_row i l]
    simp only [Array.toList_push, List.mem_append, List.mem_cons, List.not_mem_nil, or_false,
      Prod.mk.injEq, or_assoc, and_or_left]

theorem mem_foldl_push_pairs (cols : List Nat) : ∀ (rows : List Nat) (acc : Array (Nat × Nat))
    (x : Nat × Nat), x ∈ (rows.foldl (fun acc i => cols.foldl (fun acc j => acc.push (i, j)) acc)
      acc).toList ↔ x ∈ acc.toList ∨ x.1 ∈ rows ∧ x.2 ∈ cols
  | [], acc, x => by simp
  | i :: rows, acc, x => by
    rw [List.foldl_cons, mem_foldl_push_pairs cols rows, mem_foldl_push_row, List.mem_cons, or_assoc,
      or_and_right]

theorem size_foldl_push_pairs (cols : List Nat) : ∀ (rows : List Nat) (acc : Array (Nat × Nat)),
    (rows.foldl (fun acc i => cols.foldl (fun acc j => acc.push (i, j)) acc) acc).size =
      acc.size + rows.length * cols.length
  | [], acc => by simp
  | i :: rows, acc => by
    rw [List.foldl_cons, size_foldl_push_pairs cols rows, List.foldl_push_eq_append]
    simp only [Array.size_append, List.size_toArray, List.length_map, List.length_cons, Nat.succ_mul]
    omega

/-- The positions of one cell: each test dof of the cell with each trial dof. -/
theorem cellCoordinates_eq_ok {c : Nat} (ht : c < test.numCells) (hr : c < trial.numCells)
    (acc : Array (Nat × Nat)) : ∃ acc', cellCoordinates test trial acc c = .ok acc' ∧
      acc'.size = acc.size + (test.dofsOf c).size * (trial.dofsOf c).size ∧
      ∀ x, x ∈ acc'.toList ↔ x ∈ acc.toList ∨
        x.1 ∈ (test.dofsOf c).toList ∧ x.2 ∈ (trial.dofsOf c).toList := by
  refine ⟨_, ?_, by rw [size_foldl_push_pairs, Array.length_toList, Array.length_toList],
    fun x => mem_foldl_push_pairs (trial.dofsOf c).toList (test.dofsOf c).toList acc x⟩
  simp only [cellCoordinates, cellDofs_eq_ok ht, cellDofs_eq_ok hr, bind, Except.bind, pure,
    Except.pure, ← Array.foldl_toList]

/-- The pattern of the spaces, with room for its offsets and for the positions of all cells,
stores exactly the coupled positions. -/
theorem assemblePattern_eq_ok (hcells : test.numCells = trial.numCells)
    (hdt : test.DofsInRange) (hdr : trial.DofsInRange) (hcap : test.numDofs + 1 < Nat.pow 2 60)
    (hroom : test.numCells * (test.localDim * trial.localDim) < Nat.pow 2 59) :
    ∃ p, assemblePattern test trial = .ok p ∧ p.nrows = test.numDofs ∧
      p.ncols = trial.numDofs ∧ p.Valid ∧ ∀ r s, p.Stores r s ↔ Coupled test trial test.numCells r s := by
  -- the positions collected over the first `J` cells: those of the cells, `localDim²` a cell
  obtain ⟨coords, hrun, hsize, hmem⟩ := foldlM_range_invariant (N := test.numCells)
    (P := fun J (acc : Array (Nat × Nat)) => acc.size = J * (test.localDim * trial.localDim) ∧
      ∀ x, x ∈ acc.toList ↔ Coupled test trial J x.1 x.2)
    (fun acc J hJ ⟨hsz, hacc⟩ => by
      obtain ⟨acc', hacc', hsz', hmem'⟩ := cellCoordinates_eq_ok hJ (hcells ▸ hJ) acc
      refine ⟨acc', hacc', by rw [hsz', hsz, (hdt J hJ).1, (hdr J (hcells ▸ hJ)).1, Nat.succ_mul],
        fun x => ?_⟩
      rw [hmem', hacc]
      constructor
      · rintro (⟨c, hc, h⟩ | h)
        · exact ⟨c, by omega, h⟩
        · exact ⟨J, by omega, h⟩
      · rintro ⟨c, hc, h⟩
        rcases Nat.lt_succ_iff_lt_or_eq.1 hc with hc | rfl
        · exact Or.inl ⟨c, hc, h⟩
        · exact Or.inr h)
    (show (#[] : Array (Nat × Nat)).size = 0 * (test.localDim * trial.localDim) ∧
      ∀ x, x ∈ (#[] : Array (Nat × Nat)).toList ↔ Coupled test trial 0 x.1 x.2 from
      ⟨by simp, fun x => by simp [Coupled]⟩) test.numCells (Nat.le_refl _)
  have hin : ∀ x ∈ coords.toList, x.1 < test.numDofs ∧ x.2 < trial.numDofs := by
    intro x hx
    obtain ⟨c, hc, h₁, h₂⟩ := (hmem x).1 hx
    exact ⟨(hdt c hc).2 _ h₁, (hdr c (hcells ▸ hc)).2 _ h₂⟩
  have hcollect : coords.size < Nat.pow 2 59 := hsize ▸ hroom
  obtain ⟨p, hp, hr, hc, hv, hst⟩ := SparsityPattern.ofCoordinates_eq_ok hcap
    (Nat.lt_trans hcollect (by decide)) hin
  refine ⟨p, ?_, hr, hc, hv, fun r s => (hst r s).trans (hmem (r, s))⟩
  simp only [assemblePattern, hrun, Violation.require, hcollect, decide_true, if_true, bind,
    Except.bind, pure, Except.pure, hp]

theorem get!_replicate_zero (n q : Nat) :
    (Array.replicate n (Scalar.zero : Exact K))[q]! = Scalar.zero := by
  rw [Array.getElem!_eq_getD, Array.getD_eq_getD_getElem?, Array.getElem?_replicate]
  by_cases hq : q < n
  · rw [if_pos hq]
    rfl
  · rw [if_neg hq]
    rfl

/-- Assembly on the pattern of the spaces: the matrix stores exactly the coupled positions, each
holding its scatter sum. -/
theorem assemble_eq_ok (hshape : k.shape = (test.localDim, trial.localDim))
    (htest : test.numCells = mesh.numCells) (htrial : trial.numCells = mesh.numCells)
    (hdt : test.DofsInRange) (hdr : trial.DofsInRange) (hcap : test.numDofs + 1 < Nat.pow 2 60)
    (hroom : mesh.numCells * (test.localDim * trial.localDim) < Nat.pow 2 59)
    (hnodup : ∀ c < mesh.numCells, (trial.dofsOf c).toList.Nodup) (T : Nat → Matrix (Exact K))
    (htab : ∀ c < mesh.numCells, k.tabulate ⟨c, mesh.cellTriangle c⟩ = .ok (T c))
    {order : List Nat} (hcover : ∀ c, c ∈ order ↔ c < mesh.numCells) :
    ∃ A, assemble mesh test trial k order = .ok A ∧ A.Valid ∧ A.nrows = test.numDofs ∧
      A.ncols = trial.numDofs ∧ (∀ r s, A.pattern.Stores r s ↔ Coupled test trial mesh.numCells r s) ∧
      ∀ r s, Coupled test trial mesh.numCells r s →
        A.get? r s = some (Exact.mk (scatterSum test trial mesh.numCells T r s)) := by
  obtain ⟨p, hp, hr, hc, hv, hst⟩ := assemblePattern_eq_ok (htest.trans htrial.symm) hdt hdr hcap
    (htest ▸ hroom)
  rw [htest] at hst
  have hz : (Csr.zeros p : Csr (Exact K)).Valid := ⟨hv, by simp [Csr.zeros, Csr.nnz]⟩
  obtain ⟨A, hA, hpat, hsize, hget⟩ := assembleInto_eq_ok hz hshape htest htrial hr hc hdt hdr
    hnodup (fun r s h => (hst r s).2 h) (Nat.lt_trans hroom (by decide)) T htab hcover
  have hpA : A.pattern = p := hpat
  refine ⟨A, ?_, ⟨hpA ▸ hv, ?_⟩, by simp only [Csr.nrows, hpA, hr],
    by simp only [Csr.ncols, hpA, hc], fun r s => hpA ▸ hst r s, fun r s h => ?_⟩
  · simp only [assemble, hp, Failure.lift, Except.mapError, hA, bind, Except.bind]
  · rw [hsize]
    simp [Csr.zeros, Csr.nnz, hpA]
  · obtain ⟨hrs, hs⟩ := (hst r s).2 h
    obtain ⟨q, hq₁, hq₂, rfl⟩ := (hv.mem_rowCols_iff hrs).1 hs
    rw [hget, show (Csr.zeros p).get? r p.colIndices[q]! = some (Csr.zeros p).values[q]! from
      Csr.get?_offset (a := Csr.zeros p) hv hrs hq₁ hq₂, Option.map_some]
    congr 1
    apply Exact.ext
    rw [Exact.val_add, Exact.val_mk, Csr.zeros, get!_replicate_zero, Exact.val_zero, zero_add]

end Global

end MixedFem
