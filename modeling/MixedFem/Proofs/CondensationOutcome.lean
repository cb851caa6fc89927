import MixedFem.Proofs.Condensation
import MixedFem.Proofs.Matrix.Columns

/-!
# What a condensation returns

The outcomes of `CondensationSettings.condenseInto`. Shapes come first, over any scalars: the
first block of the wrong shape, in the order `A_ii`, `A_ip`, `A_pi`, output, is reported with its
expected and its actual shape, whatever the entries. With the shapes right and no internal
unknowns the result is zero.

The rest is read over an exact field whose scalars are measured in an ordered field: the
rationals, the reals, or the complex numbers with their modulus. There the only failures are a
zero pivot, reported at the first column of `A_ii` that depends on the columns before it, and a
pivot ratio below the tolerance; a condensation that succeeds returns `-A_pi A_ii⁻¹ A_ip`.

* `shapeChecks`, `firstShapeMismatch` : the expected and the actual shape of each block, and the
  first pair that differ; `condenseInto_of_mismatch`, `condenseInto_empty`;
* `checkPivots_lu_ok_iff` : the pivots of an `n × n` matrix pass exactly when it is invertible and
  its least pivot modulus is at least the tolerance times the largest;
* `checkPivots_lu_zeroPivot_iff` : the zero pivot reported is the first one;
* `condenseInto_ok_iff`, `condenseInto_ok_values`, `condenseInto_zeroPivot_iff`,
  `condenseInto_cases` : the outcomes of a condensation of well-shaped blocks;
* `condenseInto_schur_complement` : exactness, with the role of the tolerance;
* `condenseInto_failures` : the classification of the errors.
-/

namespace MixedFem

namespace CondensationSettings

section Shapes

variable {α ρ : Type}

/-- The shape each block must have and the shape it has, in the order the condensation checks
them: `A_ii` square, `A_ip` with the rows of `A_ii`, `A_pi` the other way round, and the output
square in the primary unknowns. -/
def shapeChecks (out : Nat × Nat) (aii aip api : Matrix α) :
    List (Block × (Nat × Nat) × (Nat × Nat)) :=
  [(.internal, (aii.rows, aii.rows), aii.shape), (.internalPrimary, (aii.rows, aip.cols), aip.shape),
   (.primaryInternal, (aip.cols, aii.rows), api.shape), (.output, (aip.cols, aip.cols), out)]

/-- The first block whose shape is not the expected one, with both shapes. -/
def firstShapeMismatch (out : Nat × Nat) (aii aip api : Matrix α) :
    Option (Block × (Nat × Nat) × (Nat × Nat)) :=
  (shapeChecks out aii aip api).find? fun c => decide (c.2.1 ≠ c.2.2)

theorem firstShapeMismatch_eq_none (out : Nat × Nat) (aii aip api : Matrix α) :
    firstShapeMismatch out aii aip api = none ↔
      (aii.rows, aii.rows) = aii.shape ∧ (aii.rows, aip.cols) = aip.shape ∧
        (aip.cols, aii.rows) = api.shape ∧ (aip.cols, aip.cols) = out := by
  simp only [firstShapeMismatch, shapeChecks, List.find?_eq_none, List.mem_cons, List.not_mem_nil,
    or_false, forall_eq_or_imp, forall_eq, decide_eq_true_eq, not_not]

theorem checkShape_bind {β : Type} (b : Block) (e a : Nat × Nat)
    (k : Unit → Except CondensationError β) :
    (checkShape b e a >>= k) = if e = a then k () else .error ⟨.contractViolation b e a, none⟩ := by
  unfold checkShape
  split_ifs <;> rfl

variable [Scalar α] [RealScalar ρ] [Magnitude α ρ]

/-- A block of the wrong shape is reported before anything else is looked at. -/
theorem condenseInto_of_mismatch (s : CondensationSettings ρ) (out : Nat × Nat)
    (aii aip api : Matrix α) {b : Block} {e a : Nat × Nat}
    (h : firstShapeMismatch out aii aip api = some (b, e, a)) :
    s.condenseInto out aii aip api = .error ⟨.contractViolation b e a, none⟩ := by
  unfold firstShapeMismatch shapeChecks at h
  unfold condenseInto
  simp only [checkShape_bind]
  -- the four checks in their order
  by_cases h1 : (aii.rows, aii.rows) = aii.shape <;>
  by_cases h2 : (aii.rows, aip.cols) = aip.shape <;>
  by_cases h3 : (aip.cols, aii.rows) = api.shape <;>
  by_cases h4 : (aip.cols, aip.cols) = out <;>
  simp_all

/-- With no internal unknowns the condensed matrix is zero. -/
theorem condenseInto_empty (s : CondensationSettings ρ) {aii aip api : Matrix α} {np : Nat}
    (hii_s : aii.shape = (0, 0)) (hip_s : aip.shape = (0, np)) (hpi_s : api.shape = (np, 0)) :
    s.condenseInto (np, np) aii aip api = .ok (Matrix.zeros np np) := by
  simp only [Matrix.shape, Prod.mk.injEq] at hii_s hip_s hpi_s
  unfold condenseInto
  simp only [Matrix.shape, hii_s.1, hii_s.2, hip_s.1, hip_s.2, hpi_s.1, hpi_s.2, checkShape_self,
    bind, Except.bind, if_true]
  rfl

end Shapes

variable {K R : Type} [Field K] [DecidableEq K] [Field R] [LinearOrder R]
  [Magnitude (Exact K) (Exact R)]

/-- The modulus of the pivot `U_kk` of the factorization of `a`. -/
noncomputable def pivotModulus (a : Matrix (Exact K)) (k : Nat) : R :=
  (Magnitude.modulus ((a.lu (ρ := Exact R)).factors.get k k) : Exact R).val

section Pivots

variable {a : Matrix (Exact K)} {n : Nat}

theorem lu_pivots_size (h : LuStage a n n (a.lu (ρ := Exact R))) :
    (a.lu (ρ := Exact R)).pivots.size = n := by
  rw [Lu.pivots, Array.size_ofFn, h.rows, h.cols, min_self]

theorem lu_pivots_getElem {k : Nat} (hk : k < (a.lu (ρ := Exact R)).pivots.size) :
    (a.lu (ρ := Exact R)).pivots[k] = (a.lu (ρ := Exact R)).factors.get k k := by
  simp [Lu.pivots]

variable [LawfulMagnitude K R]

/-- The zero pivot the check reports is the first zero on the diagonal of the upper factor. -/
theorem checkPivots_lu_zeroPivot_iff (ha : a.WF) (hr : a.rows = n) (hc : a.cols = n)
    (t : Exact R) (k : Nat) :
    checkPivots (a.lu (ρ := Exact R)).pivots t = .error ⟨.numericalSingularity (.zeroPivot k), none⟩ ↔
      k < n ∧ ((a.lu (ρ := Exact R)).factors.get k k).val = 0 ∧
        ∀ j < k, ((a.lu (ρ := Exact R)).factors.get j j).val ≠ 0 := by
  have hsize := lu_pivots_size (lu_stage (R := R) ha hr hc)
  constructor
  · intro h
    rw [checkPivots_eq] at h
    split at h
    · rename_i k' hfind
      obtain rfl : k' = k := by cases h; rfl
      obtain ⟨hz, hmem, hbefore⟩ := List.find?_range_eq_some.1 hfind
      have hk := List.mem_range.1 hmem
      refine ⟨hsize ▸ hk, ?_, fun j hj => ?_⟩
      · rw [← Array.getElem_eq_getD (h := hk), lu_pivots_getElem] at hz
        exact of_decide_eq_true hz
      · have := hbefore j hj
        rw [← Array.getElem_eq_getD (h := by omega), lu_pivots_getElem] at this
        simpa using this
    · split at h
      · split_ifs at h
        cases h
      · cases h
  · rintro ⟨hk, hz, hbefore⟩
    refine checkPivots_zero t (hsize ▸ hk) ?_ fun j hj hjk => ?_
    · rw [lu_pivots_getElem]; exact hz
    · rw [lu_pivots_getElem]; exact hbefore j hjk

variable [IsStrictOrderedRing R]

/-- Every pivot modulus is at least `t` times every other exactly when the least is at least `t`
times the largest. -/
theorem ratio_iff_inf_sup {μ : Nat → R} (hμ : ∀ k, 0 ≤ μ k) (hn : (Finset.range n).Nonempty)
    (t : R) : (∀ i < n, ∀ j < n, t * μ j ≤ μ i) ↔
      t * (Finset.range n).sup' hn μ ≤ (Finset.range n).inf' hn μ := by
  constructor
  · intro h
    obtain ⟨j, hj, hjmax⟩ := Finset.exists_mem_eq_sup' hn μ
    rw [hjmax]
    exact Finset.le_inf' hn _ fun i hi => h i (Finset.mem_range.1 hi) j (Finset.mem_range.1 hj)
  · intro h i hi j hj
    rcases le_or_gt 0 t with ht | ht
    · calc t * μ j ≤ t * (Finset.range n).sup' hn μ :=
            mul_le_mul_of_nonneg_left (Finset.le_sup' μ (Finset.mem_range.2 hj)) ht
        _ ≤ (Finset.range n).inf' hn μ := h
        _ ≤ μ i := Finset.inf'_le μ (Finset.mem_range.2 hi)
    · exact (mul_nonpos_of_nonpos_of_nonneg ht.le (hμ j)).trans (hμ i)

/-- The pivots of a square matrix pass the check exactly when the matrix is invertible and its
least pivot modulus is at least the tolerance times the largest. -/
theorem checkPivots_lu_ok_iff (ha : a.WF) (hr : a.rows = n) (hc : a.cols = n) (hn : 0 < n)
    (t : Exact R) : checkPivots (a.lu (ρ := Exact R)).pivots t = .ok () ↔
      (a.values n n).det ≠ 0 ∧ t.val * (Finset.range n).sup' (Finset.nonempty_range_iff.2 hn.ne')
        (pivotModulus a) ≤ (Finset.range n).inf' (Finset.nonempty_range_iff.2 hn.ne') (pivotModulus a) := by
  have hS := lu_stage (R := R) ha hr hc
  have hsize := lu_pivots_size hS
  rw [hS.det_ne_zero_iff,
    ← ratio_iff_inf_sup (μ := pivotModulus a) (fun k => LawfulMagnitude.modulus_nonneg _)]
  -- the check with nonzero pivots is the pairwise ratio test
  have hpair : ∀ hnz : ∀ j (hj : j < (a.lu (ρ := Exact R)).pivots.size),
      (a.lu (ρ := Exact R)).pivots[j].val ≠ 0,
      (checkPivots (a.lu (ρ := Exact R)).pivots t = .ok () ↔
        ∀ i < n, ∀ j < n, t.val * pivotModulus a j ≤ pivotModulus a i) := fun hnz => by
    rw [checkPivots_of_ne_zero _ t hnz]
    split_ifs with hratio
    · refine iff_of_true rfl fun i hi j hj => ?_
      have := hratio i (hsize ▸ hi) j (hsize ▸ hj)
      rwa [lu_pivots_getElem, lu_pivots_getElem] at this
    · refine iff_of_false (by simp) fun h => hratio fun i hi j hj => ?_
      rw [lu_pivots_getElem, lu_pivots_getElem]
      exact h i (hsize ▸ hi) j (hsize ▸ hj)
  have hnz_iff : (∀ j (hj : j < (a.lu (ρ := Exact R)).pivots.size),
      (a.lu (ρ := Exact R)).pivots[j].val ≠ 0) ↔
      ∀ j < n, ((a.lu (ρ := Exact R)).factors.get j j).val ≠ 0 :=
    ⟨fun h j hj => by simpa [lu_pivots_getElem] using h j (hsize ▸ hj),
      fun h j hj => by rw [lu_pivots_getElem]; exact h j (hsize ▸ hj)⟩
  constructor
  · intro hok
    have hnz := ne_zero_of_checkPivots hok
    exact ⟨hnz_iff.1 hnz, (hpair hnz).1 hok⟩
  · rintro ⟨hnz, hratio⟩
    exact (hpair (hnz_iff.2 hnz)).2 hratio

end Pivots

section Condense

variable [IsStrictOrderedRing R] [LawfulMagnitude K R]

variable (s : CondensationSettings (Exact R)) {aii aip api : Matrix (Exact K)} {n np : Nat}
  (hii : aii.WF) (hip : aip.WF) (hn : 0 < n) (hii_s : aii.shape = (n, n))
  (hip_s : aip.shape = (n, np)) (hpi_s : api.shape = (np, n))
include hii hip hn hii_s hip_s hpi_s

/-- A condensation of well-shaped blocks succeeds exactly when the pivots pass. -/
theorem condenseInto_ok_iff :
    (∃ c, s.condenseInto (np, np) aii aip api = .ok c) ↔
      checkPivots (aii.lu (ρ := Exact R)).pivots (s.effectiveTolerance n) = .ok () := by
  have hr : aii.rows = n := congrArg Prod.fst hii_s
  have hc : aii.cols = n := congrArg Prod.snd hii_s
  constructor
  · rintro ⟨c, hcond⟩
    rcases checkPivots_cases (aii.lu (ρ := Exact R)).pivots (s.effectiveTolerance n) with
      hok | ⟨k, hk⟩ | hill
    · exact hok
    · rw [condenseInto_of_checkPivots s hn hii_s hip_s hpi_s hk] at hcond; cases hcond
    · rw [condenseInto_of_checkPivots s hn hii_s hip_s hpi_s hill] at hcond; cases hcond
  · intro hpiv
    have hnz := (checkPivots_lu_ok_iff hii hr hc hn _).1 hpiv
    obtain ⟨-, -, c, hcond, -⟩ := condenseInto_eq_ok s hii hip hn hii_s hip_s hpi_s hpiv
      ((lu_stage (R := R) hii hr hc).det_ne_zero_iff.1 hnz.1)
    exact ⟨c, hcond⟩

/-- A condensation that succeeds returns the `n_p × n_p` matrix `-A_pi A_ii⁻¹ A_ip`, with
`A_ii` invertible. -/
theorem condenseInto_ok_values {c : Matrix (Exact K)}
    (hcond : s.condenseInto (np, np) aii aip api = .ok c) :
    (aii.values n n).det ≠ 0 ∧ c.rows = np ∧ c.cols = np ∧ c.WF ∧
      c.values np np = -(api.values np n * (aii.values n n)⁻¹ * aip.values n np) := by
  have hr : aii.rows = n := congrArg Prod.fst hii_s
  have hc : aii.cols = n := congrArg Prod.snd hii_s
  have hpiv := (condenseInto_ok_iff s hii hip hn hii_s hip_s hpi_s).1 ⟨c, hcond⟩
  have hdet := ((checkPivots_lu_ok_iff hii hr hc hn _).1 hpiv).1
  obtain ⟨x, hx, c', hcond', hr', hc', hw', hget⟩ := condenseInto_eq_ok s hii hip hn hii_s hip_s
    hpi_s hpiv ((lu_stage (R := R) hii hr hc).det_ne_zero_iff.1 hdet)
  obtain rfl : c = c' := Except.ok.inj (hcond.symm.trans hcond')
  refine ⟨hdet, hr', hc', hw', ?_⟩
  -- the solution of `A_ii X = A_ip` is `A_ii⁻¹ A_ip`
  have hX := values_eq_inv_mul hdet hx
  ext i j
  rw [Matrix.mul_assoc, ← hX, Matrix.neg_apply, Matrix.mul_apply, Matrix.values_apply,
    hget i i.isLt j j.isLt]
  exact congrArg Neg.neg (Finset.sum_range fun t => (api.get i t).val * (x.get t j).val)

/-- The zero pivot a condensation of well-shaped blocks reports is the one of its pivot check. -/
theorem condenseInto_zeroPivot_iff (k : Nat) :
    s.condenseInto (np, np) aii aip api = .error ⟨.numericalSingularity (.zeroPivot k), none⟩ ↔
      checkPivots (aii.lu (ρ := Exact R)).pivots (s.effectiveTolerance n) =
        .error ⟨.numericalSingularity (.zeroPivot k), none⟩ := by
  constructor
  · intro hcond
    rcases checkPivots_cases (aii.lu (ρ := Exact R)).pivots (s.effectiveTolerance n) with
      hok | ⟨k', hk⟩ | hill
    · obtain ⟨c, hc⟩ := (condenseInto_ok_iff s hii hip hn hii_s hip_s hpi_s).2 hok
      rw [hc] at hcond; cases hcond
    · rw [condenseInto_of_checkPivots s hn hii_s hip_s hpi_s hk] at hcond
      cases hcond
      exact hk
    · rw [condenseInto_of_checkPivots s hn hii_s hip_s hpi_s hill] at hcond; cases hcond
  · exact condenseInto_of_checkPivots s hn hii_s hip_s hpi_s

/-- A condensation of well-shaped blocks succeeds, reports a zero pivot, or reports a pivot ratio
below the tolerance. -/
theorem condenseInto_cases :
    (∃ c, s.condenseInto (np, np) aii aip api = .ok c) ∨
      (∃ k, s.condenseInto (np, np) aii aip api =
        .error ⟨.numericalSingularity (.zeroPivot k), none⟩) ∨
      s.condenseInto (np, np) aii aip api = .error ⟨.numericalSingularity .illConditioned, none⟩ := by
  rcases checkPivots_cases (aii.lu (ρ := Exact R)).pivots (s.effectiveTolerance n) with
    hok | ⟨k, hk⟩ | hill
  · exact Or.inl ((condenseInto_ok_iff s hii hip hn hii_s hip_s hpi_s).2 hok)
  · exact Or.inr (Or.inl ⟨k, condenseInto_of_checkPivots s hn hii_s hip_s hpi_s hk⟩)
  · exact Or.inr (Or.inr (condenseInto_of_checkPivots s hn hii_s hip_s hpi_s hill))

end Condense

variable [IsStrictOrderedRing R] [LawfulMagnitude K R]

/-- Exactness of condensation over an exact field: with `n ≥ 1` internal unknowns, the
condensation succeeds exactly when `A_ii` is invertible and its least pivot modulus is at least
the tolerance times the largest, and it then returns `-A_pi A_ii⁻¹ A_ip`, the matrix that leaves
`A_pi σ` once `σ = -A_ii⁻¹ A_ip u` is eliminated. What it returns does not depend on the
tolerance, a success stays one at every smaller tolerance, and once the pivots pass, the solve
with the factors never fails. -/
theorem condenseInto_schur_complement (s : CondensationSettings (Exact R))
    {aii aip api : Matrix (Exact K)} {n np : Nat} (hn : 0 < n) (hii : aii.WF) (hip : aip.WF)
    (hii_s : aii.shape = (n, n)) (hip_s : aip.shape = (n, np)) (hpi_s : api.shape = (np, n)) :
    ((∃ c, s.condenseInto (np, np) aii aip api = .ok c) ↔
      (aii.values n n).det ≠ 0 ∧
        (s.effectiveTolerance n).val *
            (Finset.range n).sup' (Finset.nonempty_range_iff.2 hn.ne') (pivotModulus (R := R) aii) ≤
          (Finset.range n).inf' (Finset.nonempty_range_iff.2 hn.ne') (pivotModulus (R := R) aii)) ∧
    (∀ c, s.condenseInto (np, np) aii aip api = .ok c →
      c.values np np = -(api.values np n * (aii.values n n)⁻¹ * aip.values n np) ∧
      ∀ u : Fin np → K, (c.values np np).mulVec u =
        (api.values np n).mulVec (-(((aii.values n n)⁻¹ * aip.values n np).mulVec u))) ∧
    (∀ (s' : CondensationSettings (Exact R)) (c c' : Matrix (Exact K)),
      s.condenseInto (np, np) aii aip api = .ok c →
        s'.condenseInto (np, np) aii aip api = .ok c' → c = c') ∧
    (∀ s' : CondensationSettings (Exact R),
      (s'.effectiveTolerance n).val ≤ (s.effectiveTolerance n).val →
        (∃ c, s.condenseInto (np, np) aii aip api = .ok c) →
          ∃ c', s'.condenseInto (np, np) aii aip api = .ok c') ∧
    ∀ t : Exact R, checkPivots (aii.lu (ρ := Exact R)).pivots t = .ok () →
      ((aii.lu (ρ := Exact R)).solve aip).isSome := by
  have hr : aii.rows = n := congrArg Prod.fst hii_s
  have hc : aii.cols = n := congrArg Prod.snd hii_s
  have hok : ∀ s' : CondensationSettings (Exact R),
      (∃ c, s'.condenseInto (np, np) aii aip api = .ok c) ↔
        (aii.values n n).det ≠ 0 ∧ (s'.effectiveTolerance n).val *
            (Finset.range n).sup' (Finset.nonempty_range_iff.2 hn.ne') (pivotModulus (R := R) aii) ≤
          (Finset.range n).inf' (Finset.nonempty_range_iff.2 hn.ne') (pivotModulus (R := R) aii) :=
    fun s' => (condenseInto_ok_iff s' hii hip hn hii_s hip_s hpi_s).trans
      (checkPivots_lu_ok_iff hii hr hc hn _)
  refine ⟨hok s, fun c hcond => ?_, fun s' c c' h h' => ?_, fun s' hle hs => ?_, fun t ht => ?_⟩
  · -- the Schur complement, and its action on a vector
    obtain ⟨-, -, -, -, hv⟩ := condenseInto_ok_values s hii hip hn hii_s hip_s hpi_s hcond
    refine ⟨hv, fun u => ?_⟩
    rw [hv, Matrix.neg_mulVec, Matrix.mulVec_neg, Matrix.mulVec_mulVec, Matrix.mul_assoc]
  · -- both results have the same entries
    obtain ⟨-, hr1, hc1, hw1, hv1⟩ := condenseInto_ok_values s hii hip hn hii_s hip_s hpi_s h
    obtain ⟨-, hr2, hc2, hw2, hv2⟩ := condenseInto_ok_values s' hii hip hn hii_s hip_s hpi_s h'
    refine Matrix.ext_get hw1 hw2 (hr1.trans hr2.symm) (hc1.trans hc2.symm) fun i hi j hj =>
      Exact.ext ?_
    have hij := congrFun (congrFun (hv1.trans hv2.symm) ⟨i, hr1 ▸ hi⟩) ⟨j, hc1 ▸ hj⟩
    simpa using hij
  · -- the largest pivot modulus is not negative, so a smaller tolerance passes too
    obtain ⟨hdet, hratio⟩ := (hok s).1 hs
    have hmax : 0 ≤ (Finset.range n).sup' (Finset.nonempty_range_iff.2 hn.ne')
        (pivotModulus (R := R) aii) :=
      le_trans (b := pivotModulus (R := R) aii 0) (LawfulMagnitude.modulus_nonneg _)
        (Finset.le_sup' _ (Finset.mem_range.2 hn))
    exact (hok s').2 ⟨hdet, (mul_le_mul_of_nonneg_right hle hmax).trans hratio⟩
  · -- pivots that pass are nonzero, and then the substitutions succeed
    have hdet := ((checkPivots_lu_ok_iff hii hr hc hn t).1 ht).1
    obtain ⟨x, hx, -⟩ := solve_spec (R := R) hii hr hc hip (congrArg Prod.fst hip_s)
      ((lu_stage (R := R) hii hr hc).det_ne_zero_iff.1 hdet)
    rw [hx]
    rfl

/-- The blocks `A_ii = [[0, 1], [1, 0]]`, which needs a row exchange, `A_ip = [1, 2]ᵀ` and
`A_pi = [3, 4]` over the rationals. -/
def swapBlocks : Matrix (Exact ℚ) × Matrix (Exact ℚ) × Matrix (Exact ℚ) :=
  (⟨2, 2, #[Exact.mk 0, Exact.mk 1, Exact.mk 1, Exact.mk 0]⟩, ⟨2, 1, #[Exact.mk 1, Exact.mk 2]⟩,
    ⟨1, 2, #[Exact.mk 3, Exact.mk 4]⟩)

theorem condenseInto_schur_complement_on_swap :
    (0 < 2 ∧ swapBlocks.1.WF ∧ swapBlocks.2.1.WF ∧ swapBlocks.1.shape = (2, 2) ∧
      swapBlocks.2.1.shape = (2, 1) ∧ swapBlocks.2.2.shape = (1, 2)) ∧
    ((∃ c, condenseInto (ρ := Exact ℚ) ⟨none⟩ (1, 1) swapBlocks.1 swapBlocks.2.1 swapBlocks.2.2 = .ok c) ↔
      (swapBlocks.1.values 2 2).det ≠ 0 ∧
        (effectiveTolerance (ρ := Exact ℚ) ⟨none⟩ 2).val *
            (Finset.range 2).sup' (Finset.nonempty_range_iff.2 (by decide)) (pivotModulus (R := ℚ) swapBlocks.1) ≤
          (Finset.range 2).inf' (Finset.nonempty_range_iff.2 (by decide)) (pivotModulus (R := ℚ) swapBlocks.1)) ∧
    (∀ c, condenseInto (ρ := Exact ℚ) ⟨none⟩ (1, 1) swapBlocks.1 swapBlocks.2.1 swapBlocks.2.2 = .ok c →
      c.values 1 1 = -(swapBlocks.2.2.values 1 2 * (swapBlocks.1.values 2 2)⁻¹ * swapBlocks.2.1.values 2 1) ∧
      ∀ u : Fin 1 → ℚ, (c.values 1 1).mulVec u = (swapBlocks.2.2.values 1 2).mulVec
        (-(((swapBlocks.1.values 2 2)⁻¹ * swapBlocks.2.1.values 2 1).mulVec u))) ∧
    (∀ (s' : CondensationSettings (Exact ℚ)) (c c' : Matrix (Exact ℚ)),
      condenseInto (ρ := Exact ℚ) ⟨none⟩ (1, 1) swapBlocks.1 swapBlocks.2.1 swapBlocks.2.2 = .ok c →
        s'.condenseInto (1, 1) swapBlocks.1 swapBlocks.2.1 swapBlocks.2.2 = .ok c' → c = c') ∧
    (∀ s' : CondensationSettings (Exact ℚ),
      (s'.effectiveTolerance 2).val ≤ (effectiveTolerance (ρ := Exact ℚ) ⟨none⟩ 2).val →
        (∃ c, condenseInto (ρ := Exact ℚ) ⟨none⟩ (1, 1) swapBlocks.1 swapBlocks.2.1 swapBlocks.2.2 = .ok c) →
          ∃ c', s'.condenseInto (1, 1) swapBlocks.1 swapBlocks.2.1 swapBlocks.2.2 = .ok c') ∧
    ∀ t : Exact ℚ, checkPivots (swapBlocks.1.lu (ρ := Exact ℚ)).pivots t = .ok () →
      ((swapBlocks.1.lu (ρ := Exact ℚ)).solve swapBlocks.2.1).isSome :=
  ⟨⟨by decide, rfl, rfl, rfl, rfl, rfl⟩,
    condenseInto_schur_complement ⟨none⟩ (by decide) rfl rfl rfl rfl rfl⟩

omit [Field K] [DecidableEq K] in
/-- With shapes that pass, the blocks have the shapes of `n_i = A_ii.rows` internal and
`n_p = A_ip.cols` primary unknowns. -/
theorem shapes_of_firstShapeMismatch {out : Nat × Nat} {aii aip api : Matrix (Exact K)}
    (h : firstShapeMismatch out aii aip api = none) :
    aii.shape = (aii.rows, aii.rows) ∧ aip.shape = (aii.rows, aip.cols) ∧
      api.shape = (aip.cols, aii.rows) ∧ out = (aip.cols, aip.cols) := by
  obtain ⟨h1, h2, h3, h4⟩ := (firstShapeMismatch_eq_none out aii aip api).1 h
  exact ⟨h1.symm, h2.symm, h3.symm, h4.symm⟩

/-- A condensation reports the first block of the wrong shape, succeeds, reports a zero pivot or
reports a pivot ratio below the tolerance. -/
theorem condenseInto_outcomes (s : CondensationSettings (Exact R)) (out : Nat × Nat)
    (aii aip api : Matrix (Exact K)) (hii : aii.WF) (hip : aip.WF) :
    (∃ b e a, firstShapeMismatch out aii aip api = some (b, e, a) ∧
      s.condenseInto out aii aip api = .error ⟨.contractViolation b e a, none⟩) ∨
    (∃ c, s.condenseInto out aii aip api = .ok c) ∨
    (∃ k, s.condenseInto out aii aip api = .error ⟨.numericalSingularity (.zeroPivot k), none⟩) ∨
    s.condenseInto out aii aip api = .error ⟨.numericalSingularity .illConditioned, none⟩ := by
  rcases hm : firstShapeMismatch out aii aip api with _ | ⟨b, e, a⟩
  · obtain ⟨hii_s, hip_s, hpi_s, rfl⟩ := shapes_of_firstShapeMismatch hm
    rcases Nat.eq_zero_or_pos aii.rows with h0 | hn
    · rw [h0] at hii_s hip_s hpi_s
      exact Or.inr (Or.inl ⟨_, condenseInto_empty s hii_s hip_s hpi_s⟩)
    · exact Or.inr (condenseInto_cases s hii hip hn hii_s hip_s hpi_s)
  · exact Or.inl ⟨b, e, a, rfl, condenseInto_of_mismatch s out aii aip api hm⟩

/-- The errors of a condensation in exact arithmetic. A block of the wrong shape is reported,
with its expected and actual shape, exactly when it is the first to fail in the order `A_ii`,
`A_ip`, `A_pi`, output, whatever the entries. With the shapes right and no internal unknowns the
result is zero; with `n_i ≥ 1` a zero pivot is reported exactly when `A_ii` is singular, at the
least `k` whose columns `0, …, k` are dependent. No error is ever about a non-finite value. -/
theorem condenseInto_failures (s : CondensationSettings (Exact R)) (out : Nat × Nat)
    {aii aip api : Matrix (Exact K)} (hii : aii.WF) (hip : aip.WF) :
    (∀ b e a, s.condenseInto out aii aip api = .error ⟨.contractViolation b e a, none⟩ ↔
      firstShapeMismatch out aii aip api = some (b, e, a)) ∧
    (firstShapeMismatch out aii aip api = none → aii.rows = 0 →
      s.condenseInto out aii aip api = .ok (Matrix.zeros aip.cols aip.cols)) ∧
    (firstShapeMismatch out aii aip api = none → 0 < aii.rows →
      ((∃ k, s.condenseInto out aii aip api = .error ⟨.numericalSingularity (.zeroPivot k), none⟩) ↔
        (aii.values aii.rows aii.rows).det = 0) ∧
      ∀ k, s.condenseInto out aii aip api = .error ⟨.numericalSingularity (.zeroPivot k), none⟩ ↔
        IsLeast {j | j < aii.rows ∧ ¬ LinearIndependent K (aii.leadingColumns aii.rows j)} k) ∧
    ∀ e, s.condenseInto out aii aip api = .error e → ∀ c b,
      e.kind ≠ .numericalSingularity (.nonFinitePivot c) ∧
      e.kind ≠ .numericalSingularity (.nonFiniteCoupling b) ∧
      e.kind ≠ .numericalSingularity .nonFiniteResult := by
  have houts := condenseInto_outcomes s out aii aip api hii hip
  refine ⟨fun b e a => ⟨fun h => ?_, condenseInto_of_mismatch s out aii aip api⟩,
    fun hm h0 => ?_, fun hm hn => ?_, fun e he c b => ?_⟩
  · -- a contract violation comes only from the shape checks
    rw [h] at houts
    rcases houts with ⟨b', e', a', hm, h'⟩ | ⟨_, h'⟩ | ⟨_, h'⟩ | h' <;> cases h'
    exact hm
  · obtain ⟨hii_s, hip_s, hpi_s, rfl⟩ := shapes_of_firstShapeMismatch hm
    rw [h0] at hii_s hip_s hpi_s
    exact condenseInto_empty s hii_s hip_s hpi_s
  · obtain ⟨hii_s, hip_s, hpi_s, rfl⟩ := shapes_of_firstShapeMismatch hm
    have hS := lu_stage (R := R) hii rfl (congrArg Prod.snd hii_s)
    -- a reported zero pivot is the first zero on the diagonal of the upper factor
    have hzp : ∀ k, s.condenseInto (aip.cols, aip.cols) aii aip api =
        .error ⟨.numericalSingularity (.zeroPivot k), none⟩ ↔
        k < aii.rows ∧ ((aii.lu (ρ := Exact R)).factors.get k k).val = 0 ∧
          ∀ j < k, ((aii.lu (ρ := Exact R)).factors.get j j).val ≠ 0 := fun k =>
      (condenseInto_zeroPivot_iff s hii hip hn hii_s hip_s hpi_s k).trans
        (checkPivots_lu_zeroPivot_iff hii rfl (congrArg Prod.snd hii_s) _ k)
    refine ⟨⟨fun ⟨k, hk⟩ => ?_, fun hdet => ?_⟩, fun k => (hzp k).trans (hS.isLeast_dependent_iff k).symm⟩
    · obtain ⟨hkn, hz, -⟩ := (hzp k).1 hk
      exact not_not.1 fun hdet => hS.det_ne_zero_iff.1 hdet k hkn hz
    · -- the least zero pivot of a singular block
      classical
      have hex : ∃ j, j < aii.rows ∧ ((aii.lu (ρ := Exact R)).factors.get j j).val = 0 := by
        by_contra hnone
        push Not at hnone
        exact hS.det_ne_zero_iff.2 hnone hdet
      obtain ⟨hkn, hz⟩ := Nat.find_spec hex
      exact ⟨Nat.find hex, (hzp _).2 ⟨hkn, hz, fun j hj hjz =>
        Nat.find_min hex hj ⟨hj.trans hkn, hjz⟩⟩⟩
  · -- every error is a shape, a zero pivot or a pivot ratio
    rw [he] at houts
    rcases houts with ⟨_, _, _, _, h'⟩ | ⟨_, h'⟩ | ⟨_, h'⟩ | h' <;> cases h' <;>
      exact ⟨nofun, nofun, nofun⟩


/-- The blocks `A_ii = [[1, 2], [2, 4]]` of rank one, `A_ip = [1, 1]ᵀ` and `A_pi = [1, 1]` over the
rationals. -/
def rankOneBlocks : Matrix (Exact ℚ) × Matrix (Exact ℚ) × Matrix (Exact ℚ) :=
  (⟨2, 2, #[Exact.mk 1, Exact.mk 2, Exact.mk 2, Exact.mk 4]⟩, ⟨2, 1, #[Exact.mk 1, Exact.mk 1]⟩,
    ⟨1, 2, #[Exact.mk 1, Exact.mk 1]⟩)

theorem condenseInto_failures_on_rank_one :
    (rankOneBlocks.1.WF ∧ rankOneBlocks.2.1.WF) ∧
      (∀ b e a, condenseInto (ρ := Exact ℚ) ⟨none⟩ (1, 1) rankOneBlocks.1 rankOneBlocks.2.1
          rankOneBlocks.2.2 = .error ⟨.contractViolation b e a, none⟩ ↔
        firstShapeMismatch (1, 1) rankOneBlocks.1 rankOneBlocks.2.1 rankOneBlocks.2.2 =
          some (b, e, a)) ∧
      (firstShapeMismatch (1, 1) rankOneBlocks.1 rankOneBlocks.2.1 rankOneBlocks.2.2 = none →
        rankOneBlocks.1.rows = 0 →
        condenseInto (ρ := Exact ℚ) ⟨none⟩ (1, 1) rankOneBlocks.1 rankOneBlocks.2.1
          rankOneBlocks.2.2 = .ok (Matrix.zeros rankOneBlocks.2.1.cols rankOneBlocks.2.1.cols)) ∧
      (firstShapeMismatch (1, 1) rankOneBlocks.1 rankOneBlocks.2.1 rankOneBlocks.2.2 = none →
        0 < rankOneBlocks.1.rows →
        ((∃ k, condenseInto (ρ := Exact ℚ) ⟨none⟩ (1, 1) rankOneBlocks.1 rankOneBlocks.2.1
            rankOneBlocks.2.2 = .error ⟨.numericalSingularity (.zeroPivot k), none⟩) ↔
          (rankOneBlocks.1.values rankOneBlocks.1.rows rankOneBlocks.1.rows).det = 0) ∧
        ∀ k, condenseInto (ρ := Exact ℚ) ⟨none⟩ (1, 1) rankOneBlocks.1 rankOneBlocks.2.1
            rankOneBlocks.2.2 = .error ⟨.numericalSingularity (.zeroPivot k), none⟩ ↔
          IsLeast {j | j < rankOneBlocks.1.rows ∧
            ¬ LinearIndependent ℚ (rankOneBlocks.1.leadingColumns rankOneBlocks.1.rows j)} k) ∧
      ∀ e, condenseInto (ρ := Exact ℚ) ⟨none⟩ (1, 1) rankOneBlocks.1 rankOneBlocks.2.1
          rankOneBlocks.2.2 = .error e → ∀ c b,
        e.kind ≠ .numericalSingularity (.nonFinitePivot c) ∧
        e.kind ≠ .numericalSingularity (.nonFiniteCoupling b) ∧
        e.kind ≠ .numericalSingularity .nonFiniteResult :=
  ⟨⟨rfl, rfl⟩, condenseInto_failures ⟨none⟩ (1, 1) rfl rfl⟩

end CondensationSettings

end MixedFem
