import MixedFem.Proofs.Loop
import MixedFem.Proofs.Matrix.Solve
import MixedFem.Proofs.Matrix.Product
import MixedFem.Condensation

/-!
# Static condensation in exact arithmetic

Over an exact field, with the sizes of its scalars in an ordered field, the pivot check of a
condensation stops at the first zero pivot, and past it compares the least pivot size with the
tolerance times the largest. A condensation whose pivots pass computes the Schur complement: with
`X` the solution of `A_ii X = A_ip`, the result is `-A_pi X`.

* `pivotExtremes` : the least and the largest pivot size, as the loop of `checkPivots` gathers
  them; `pivotExtremes_spec`;
* `checkPivots_eq` : the check is a search for the first zero pivot, then the ratio test;
* `checkPivots_zero`, `checkPivots_of_ne_zero` : the first zero pivot is reported; with none, the
  check passes exactly when every size is at least the tolerance times every other;
  `checkPivots_cases` : no other outcome;
* `checkPivots_ok` : the same over an ordered field, in absolute values;
* `condenseInto_eq_ok` : with square `A_ii` of `n > 0` rows, couplings of matching shapes and
  pivots that pass, the condensation returns the entries `-Σ_t A_pi[i,t] X[t,j]` for an `X`
  that solves `A_ii X = A_ip`; `condenseInto_of_checkPivots` : a failed pivot check is its result.
-/

namespace MixedFem

namespace CondensationSettings

theorem checkShape_self (b : Block) (e : Nat × Nat) : checkShape b e e = .ok () := if_pos rfl

theorem allFinite_exact {K : Type} [Field K] [DecidableEq K] (m : Matrix (Exact K)) :
    m.allFinite = true := by
  simp [Matrix.allFinite]

section Pivots

variable {K R : Type} [Field K] [DecidableEq K] [Magnitude (Exact K) (Exact R)]

/-- The size of pivot `c`. -/
def pivotSize (p : Array (Exact K)) (c : Nat) : Exact R := Magnitude.modulus (p.getD c Scalar.zero)

theorem pivotSize_eq (p : Array (Exact K)) {c : Nat} (hc : c < p.size) :
    (pivotSize p c : Exact R) = Magnitude.modulus p[c] := by
  rw [pivotSize, ← Array.getElem_eq_getD]

variable [Field R] [LinearOrder R]

/-- The least and the largest pivot size, gathered as the loop of `checkPivots` gathers them. -/
noncomputable def pivotExtremes (p : Array (Exact K)) : Option (Exact R) × Exact R :=
  (List.range p.size).foldl (fun s c =>
    (some (match s.1 with
      | some cur => if cur < pivotSize p c then cur else pivotSize p c
      | none => pivotSize p c),
     if pivotSize p c ≤ s.2 then s.2 else pivotSize p c)) (none, Scalar.zero)

variable [LawfulMagnitude K R]

/-- The pivot check stops at the first zero pivot; past it, it compares the least pivot size with
the tolerance times the largest. -/
theorem checkPivots_eq (p : Array (Exact K)) (tol : Exact R) :
    checkPivots p tol =
      match (List.range p.size).find? (fun c => decide ((p.getD c Scalar.zero).val = 0)) with
      | some k => .error ⟨.numericalSingularity (.zeroPivot k), none⟩
      | none => match (pivotExtremes (R := R) p).1 with
        | some l => if l < tol * (pivotExtremes (R := R) p).2 then
            .error ⟨.numericalSingularity .illConditioned, none⟩ else .ok ()
        | none => .ok () := by
  unfold checkPivots
  simp only [Std.Legacy.Range.forIn'_eq_forIn'_range']
  rw [forIn'_except_find (fun c => decide ((p.getD c Scalar.zero).val = 0))
    (fun c => ⟨.numericalSingularity (.zeroPivot c), none⟩)
    (fun c s => (some (match s.1 with
      | some cur => if cur < pivotSize p c then cur else pivotSize p c
      | none => pivotSize p c),
     if pivotSize p c ≤ s.2 then s.2 else pivotSize p c))]
  · have hl : List.range' 0 [:p.size].size = List.range p.size := by simp [List.range_eq_range']
    rw [hl]
    cases (List.range p.size).find? (fun c => decide ((p.getD c Scalar.zero).val = 0)) <;> rfl
  · -- every pivot size is finite, and it is zero exactly at a zero pivot
    intro c hc s
    have hc' : c < p.size := by simp at hc; omega
    simp only [pivotSize, ← Array.getElem_eq_getD (h := hc'), Exact.isFinite_eq, Bool.not_true,
      Bool.false_eq_true, if_false, Exact.isZero_eq, LawfulMagnitude.modulus_eq_zero]
    split <;> rfl

/-- With no zero pivot, the loop keeps the least and the largest size seen. -/
theorem pivotExtremes_spec (p : Array (Exact K)) (hnz : ∀ c (hc : c < p.size), p[c].val ≠ 0) :
    (p.size = 0 ∧ pivotExtremes (R := R) p = (none, Scalar.zero)) ∨
      ∃ i < p.size, ∃ j < p.size, pivotExtremes (R := R) p = (some (pivotSize p i), pivotSize p j) ∧
        ∀ c < p.size, (pivotSize (R := R) p i).val ≤ (pivotSize p c).val ∧
          (pivotSize (R := R) p c).val ≤ (pivotSize p j).val := by
  have hpos : ∀ c < p.size, 0 < (pivotSize (R := R) p c).val := fun c hc => by
    rw [pivotSize_eq p hc]
    exact lt_of_le_of_ne (LawfulMagnitude.modulus_nonneg _)
      (Ne.symm ((LawfulMagnitude.modulus_eq_zero _).not.2 (hnz c hc)))
  refine (foldl_range_invariant (N := p.size)
    (P := fun n s => (n = 0 ∧ s = (none, Scalar.zero)) ∨
      ∃ i < n, ∃ j < n, s = (some (pivotSize p i), pivotSize p j) ∧
        ∀ c < n, (pivotSize (R := R) p i).val ≤ (pivotSize p c).val ∧
          (pivotSize (R := R) p c).val ≤ (pivotSize p j).val)
    (fun s c hc h => ?_) (Or.inl ⟨rfl, rfl⟩) p.size le_rfl).imp (fun h => ⟨h.1, h.2⟩) id
  have hc0 := hpos c hc
  rcases h with ⟨rfl, rfl⟩ | ⟨i, hi, j, hj, rfl, hb⟩
  · -- the first pivot is both the least and the largest
    have hle : ¬ pivotSize (R := R) p 0 ≤ Scalar.zero := by
      rw [Exact.le_iff, Exact.val_zero, not_le]
      exact hc0
    refine Or.inr ⟨0, by omega, 0, by omega, by simp only [if_neg hle], fun c' hc' => ?_⟩
    obtain rfl : c' = 0 := by omega
    exact ⟨le_rfl, le_rfl⟩
  · -- a new pivot replaces the least or the largest when it passes them
    refine Or.inr ⟨if pivotSize (R := R) p i < pivotSize p c then i else c, by split_ifs <;> omega,
      if pivotSize (R := R) p c ≤ pivotSize p j then j else c, by split_ifs <;> omega,
      by dsimp only; split_ifs <;> rfl, fun c' hc' => ?_⟩
    rcases Nat.lt_succ_iff_lt_or_eq.1 hc' with hc' | rfl
    · obtain ⟨h1, h2⟩ := hb c' hc'
      constructor
      · split_ifs with hlt
        · exact h1
        · exact (not_lt.1 ((Exact.lt_iff _ _).not.1 hlt)).trans h1
      · split_ifs with hle
        · exact h2
        · exact h2.trans (not_le.1 ((Exact.le_iff _ _).not.1 hle)).le
    · constructor
      · split_ifs with hlt
        · exact ((Exact.lt_iff _ _).1 hlt).le
        · exact le_rfl
      · split_ifs with hle
        · exact (Exact.le_iff _ _).1 hle
        · exact le_rfl

/-- The first zero pivot is reported. -/
theorem checkPivots_zero {p : Array (Exact K)} (tol : Exact R) {k : Nat} (hk : k < p.size)
    (hz : p[k].val = 0) (hbefore : ∀ j (hj : j < p.size), j < k → p[j].val ≠ 0) :
    checkPivots p tol = .error ⟨.numericalSingularity (.zeroPivot k), none⟩ := by
  have hfind : (List.range p.size).find? (fun c => decide ((p.getD c Scalar.zero).val = 0)) =
      some k := by
    refine List.find?_range_eq_some.2 ⟨?_, List.mem_range.2 hk, fun j hj => ?_⟩
    · rw [← Array.getElem_eq_getD (h := hk)]
      exact decide_eq_true hz
    · rw [← Array.getElem_eq_getD (h := by omega), Bool.not_eq_true', decide_eq_false_iff_not]
      exact hbefore j _ hj
  rw [checkPivots_eq, hfind]

theorem findZero_eq_none {p : Array (Exact K)} (hnz : ∀ j (hj : j < p.size), p[j].val ≠ 0) :
    (List.range p.size).find? (fun c => decide ((p.getD c Scalar.zero).val = 0)) = none :=
  List.find?_range_eq_none.2 fun j hj => by
    rw [← Array.getElem_eq_getD (h := hj), Bool.not_eq_true', decide_eq_false_iff_not]
    exact hnz j hj

/-- With no zero pivot, the check passes exactly when every pivot size is at least the tolerance
times every other, and otherwise reports an ill-conditioned block. -/
theorem checkPivots_of_ne_zero [IsStrictOrderedRing R] (p : Array (Exact K)) (tol : Exact R)
    (hnz : ∀ j (hj : j < p.size), p[j].val ≠ 0) :
    checkPivots p tol = if ∀ i (hi : i < p.size) j (hj : j < p.size),
        tol.val * (Magnitude.modulus p[j] : Exact R).val ≤ (Magnitude.modulus p[i] : Exact R).val
      then .ok () else .error ⟨.numericalSingularity .illConditioned, none⟩ := by
  rw [checkPivots_eq, findZero_eq_none hnz]
  dsimp only
  rcases pivotExtremes_spec p hnz with ⟨h0, he⟩ | ⟨i, hi, j, hj, he, hb⟩
  · rw [he, if_pos fun i hi => absurd hi (by omega)]
  rw [he]
  dsimp only
  by_cases hratio : ∀ i (hi : i < p.size) j (hj : j < p.size),
      tol.val * (Magnitude.modulus p[j] : Exact R).val ≤ (Magnitude.modulus p[i] : Exact R).val
  · -- the least size passes against the largest
    rw [if_pos hratio, if_neg]
    rw [Exact.lt_iff, Exact.val_mul, pivotSize_eq p hi, pivotSize_eq p hj, not_lt]
    exact hratio i hi j hj
  · -- a failing pair makes the tolerance positive, so the least fails against the largest
    rw [if_neg hratio, if_pos]
    simp only [not_forall, not_le] at hratio
    obtain ⟨i', hi', j', hj', hlt⟩ := hratio
    rw [← pivotSize_eq p hi', ← pivotSize_eq p hj'] at hlt
    have htol : 0 < tol.val := pos_of_mul_pos_left
      ((LawfulMagnitude.modulus_nonneg _).trans_lt (pivotSize_eq p hi' ▸ hlt))
      (pivotSize_eq p hj' ▸ LawfulMagnitude.modulus_nonneg _)
    rw [Exact.lt_iff, Exact.val_mul]
    calc (pivotSize (R := R) p i).val ≤ (pivotSize p i').val := (hb i' hi').1
      _ < tol.val * (pivotSize p j').val := hlt
      _ ≤ tol.val * (pivotSize p j).val := mul_le_mul_of_nonneg_left (hb j' hj').2 htol.le

/-- The pivot check passes, reports a zero pivot, or reports an ill-conditioned block. -/
theorem checkPivots_cases (p : Array (Exact K)) (tol : Exact R) :
    checkPivots p tol = .ok () ∨ (∃ k, checkPivots p tol =
      .error ⟨.numericalSingularity (.zeroPivot k), none⟩) ∨
      checkPivots p tol = .error ⟨.numericalSingularity .illConditioned, none⟩ := by
  rw [checkPivots_eq]
  split
  · exact Or.inr (Or.inl ⟨_, rfl⟩)
  · split
    · split_ifs
      · exact Or.inr (Or.inr rfl)
      · exact Or.inl rfl
    · exact Or.inl rfl

/-- Pivots that pass the check are nonzero. -/
theorem ne_zero_of_checkPivots {p : Array (Exact K)} {tol : Exact R}
    (h : checkPivots p tol = .ok ()) : ∀ j (hj : j < p.size), p[j].val ≠ 0 := by
  intro j hj hz
  -- the least zero pivot would be reported
  obtain ⟨k, hk, hkz, hleast⟩ : ∃ k, ∃ hk : k < p.size, p[k].val = 0 ∧
      ∀ i (hi : i < p.size), i < k → p[i].val ≠ 0 := by
    classical
    let P := fun k => ∃ hk : k < p.size, p[k].val = 0
    refine ⟨Nat.find (⟨j, hj, hz⟩ : ∃ k, P k), (Nat.find_spec (⟨j, hj, hz⟩ : ∃ k, P k)).1,
      (Nat.find_spec (⟨j, hj, hz⟩ : ∃ k, P k)).2, fun i hi hik hiz => ?_⟩
    exact Nat.find_min (⟨j, hj, hz⟩ : ∃ k, P k) hik ⟨hi, hiz⟩
  rw [checkPivots_zero tol hk hkz hleast] at h
  cases h

end Pivots

section Ordered

variable {K : Type} [Field K] [LinearOrder K] [IsStrictOrderedRing K]

/-- The pivot check passes when no pivot is zero and each modulus is at least the tolerance times
every other. -/
theorem checkPivots_ok (p : Array (Exact K)) (tol : Exact K)
    (hnz : ∀ i (h : i < p.size), p[i].val ≠ 0)
    (hratio : ∀ i (hi : i < p.size) j (hj : j < p.size), tol.val * |p[j].val| ≤ |p[i].val|) :
    checkPivots p tol = .ok () := by
  rw [checkPivots_of_ne_zero p tol hnz]
  simp only [Exact.modulus_eq, Exact.val_abs]
  exact if_pos hratio

end Ordered

variable {K R : Type} [Field K] [DecidableEq K] [Field R] [LinearOrder R]
  [Magnitude (Exact K) (Exact R)]

/-- Past the shape checks, with `n > 0` internal unknowns, a failed pivot check is the result of
the condensation. -/
theorem condenseInto_of_checkPivots (s : CondensationSettings (Exact R))
    {aii aip api : Matrix (Exact K)} {n np : Nat} (hn : 0 < n) (hii_s : aii.shape = (n, n))
    (hip_s : aip.shape = (n, np)) (hpi_s : api.shape = (np, n)) {e : CondensationError}
    (hpiv : checkPivots (aii.lu (ρ := Exact R)).pivots (s.effectiveTolerance n) = .error e) :
    s.condenseInto (np, np) aii aip api = .error e := by
  simp only [Matrix.shape, Prod.mk.injEq] at hii_s hip_s hpi_s
  unfold condenseInto
  simp only [Matrix.shape, hii_s.1, hii_s.2, hip_s.1, hip_s.2, hpi_s.1, hpi_s.2, checkShape_self,
    allFinite_exact, hpiv, Bool.not_true, Bool.false_eq_true, if_false,
    if_neg (Nat.pos_iff_ne_zero.1 hn), bind, Except.bind]

variable [LawfulMagnitude K R]

/-- The condensation of a square `A_ii` whose pivots pass is `-A_pi X` with `A_ii X = A_ip`. -/
theorem condenseInto_eq_ok (s : CondensationSettings (Exact R)) {aii aip api : Matrix (Exact K)}
    {n np : Nat} (hii : aii.WF) (hip : aip.WF) (hn : 0 < n) (hii_s : aii.shape = (n, n))
    (hip_s : aip.shape = (n, np)) (hpi_s : api.shape = (np, n))
    (hpiv : checkPivots (aii.lu (ρ := Exact R)).pivots (s.effectiveTolerance n) = .ok ())
    (hd : ∀ t < n, ((aii.lu (ρ := Exact R)).factors.get t t).val ≠ 0) :
    ∃ x : Matrix (Exact K), (∀ r < n, ∀ k < np,
        ∑ t ∈ Finset.range n, (aii.get r t).val * (x.get t k).val = (aip.get r k).val) ∧
      ∃ c, s.condenseInto (np, np) aii aip api = .ok c ∧
        Matrix.HasEntries np np (fun i j => -∑ t ∈ Finset.range n, (api.get i t).val * (x.get t j).val) c := by
  simp only [Matrix.shape, Prod.mk.injEq] at hii_s hip_s hpi_s
  obtain ⟨x, hsolve, hxr, hxc, hxw, hx⟩ := solve_spec (R := R) hii hii_s.1 hii_s.2 hip hip_s.1 hd
  refine ⟨x, fun r hr k hk => hx r hr k (hip_s.2 ▸ hk), ?_⟩
  unfold condenseInto
  simp only [Matrix.shape, hii_s.1, hii_s.2, hip_s.1, hip_s.2, hpi_s.1, hpi_s.2, checkShape_self,
    allFinite_exact, hpiv, hsolve, Bool.not_true, Bool.false_eq_true, if_false, if_true,
    if_neg (Nat.pos_iff_ne_zero.1 hn), bind, Except.bind]
  refine ⟨_, rfl, ?_⟩
  -- exact scalars have no register tile, so the product is formed column by column
  have hprod : Matrix.scaledProduct (-Scalar.one) api x = Matrix.mulColumnwise (-Scalar.one) api x :=
    rfl
  have hxc' : x.cols = np := hxc.trans hip_s.2
  obtain ⟨hr, hc, hw, hget⟩ := Matrix.mulColumnwise_entries (-Scalar.one) api x
  rw [hprod]
  refine ⟨hr.trans hpi_s.1, hc.trans hxc', hw, fun i hi j hj => ?_⟩
  rw [hget i (hpi_s.1 ▸ hi) j (hxc' ▸ hj)]
  beta_reduce
  rw [Exact.val_neg, Exact.val_one, neg_one_mul, hpi_s.2]

end CondensationSettings

end MixedFem
