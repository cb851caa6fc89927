import MixedFem.Proofs.Sparse.Cg
import MixedFem.Proofs.Sparse.Rows
import MixedFem.Proofs.Sparse.Conjugacy

/-!
# Conjugate gradients terminate

In exact arithmetic, conjugate gradients on a symmetric positive definite system, with the
identity or the Jacobi preconditioner, returns within `n` updates. Each update the solver makes
is one step of the recurrences of `ConjugateRun`, read on the first `n` entries of its arrays, so
the residuals of a run are orthogonal in the preconditioner's product. A residual that fails the
stopping test is nonzero, hence a run meets at most `n` of them; and while it is nonzero the
divisors `zᵀ r` and `pᵀ A p` are positive, so no check of the solver fails.

* `Exact.toVec n x` : the first `n` entries of an array as a vector of `K^n`, with
  `Exact.vectorDot_eq` (`vectorDot` is the dot product);
* `SystemOperator.onVec op n` : the operator on `K^n`; `SystemOperator.PosDef op n` : it is
  symmetric positive definite;
* `Preconditioner.PositiveDiagonal pc n` : the identity, or a Jacobi preconditioner with
  positive weights (`Preconditioner.weights`); `Preconditioner.ofCsr_positiveDiagonal` : the
  Jacobi preconditioner of a positive definite sparse matrix is one;
* `CgProblem.Coherent q n s` : the state invariant: lengths `n`, `z = w r` and the stored
  `zᵀ r`; `CgProblem.step_conjugate` : a step from a coherent state is one update of the
  recurrences;
* `CgProblem.Reaches.conjugateRun`, `CgProblem.Reaches.lt_of_not_converged` : a run follows the
  recurrences, and fails the stopping test only within its first `n` updates;
* `CgProblem.conjugateGradient_terminates` : the solve returns, after at most `n` updates.
-/

namespace MixedFem

open Finset

variable {K : Type} [Field K] [LinearOrder K]

namespace Exact

variable {n : Nat}

/-- The first `n` entries of an array, as a vector of `K^n`. -/
def toVec (n : Nat) (x : Array (Exact K)) : Fin n → K := fun i => (x[i.val]!).val

/-- A vector of `K^n` as an array of length `n`. -/
def ofVec (v : Fin n → K) : Array (Exact K) := Array.ofFn fun i => Exact.mk (v i)

omit [Field K] [LinearOrder K] in
@[simp] theorem size_ofVec (v : Fin n → K) : (ofVec v).size = n := Array.size_ofFn

@[simp] theorem toVec_ofVec (v : Fin n → K) : toVec n (ofVec v) = v := by
  funext i
  rw [toVec, getElem!_pos (ofVec v) i.val (by simp)]
  simp [ofVec]

theorem ofVec_toVec {x : Array (Exact K)} (hx : x.size = n) : ofVec (toVec n x) = x :=
  array_ext (by simp [hx]) fun i hi => by
    have hi' : i < n := by simpa using hi
    rw [getElem!_pos _ i hi]
    simp [ofVec, toVec]

/-- An array of length `n` is zero when its vector is. -/
theorem toVec_eq_zero {x : Array (Exact K)} (hx : x.size = n) (h : toVec n x = 0) :
    ∀ i < x.size, (x[i]!).val = 0 := fun i hi =>
  congrFun h ⟨i, hx ▸ hi⟩

/-- The blocked dot product of arrays of length `n` is the dot product of their vectors. -/
theorem vectorDot_eq {x y : Array (Exact K)} (hx : x.size = n) :
    (vectorDot x y).val = toVec n x ⬝ᵥ toVec n y := by
  rw [vectorDot_val, hx, Finset.sum_range]
  rfl

theorem toVec_zipWith_add_mul {x p : Array (Exact K)} (hxp : x.size = p.size) (c : Exact K) :
    toVec n (x.zipWith (fun xi pi => xi + c * pi) p) = toVec n x + c.val • toVec n p := by
  funext i
  simp [toVec, val_zipWith_add_mul hxp]

theorem toVec_zipWith_sub_mul {r a : Array (Exact K)} (hra : r.size = a.size) (c : Exact K) :
    toVec n (r.zipWith (fun ri ai => ri - c * ai) a) = toVec n r - c.val • toVec n a := by
  funext i
  simp [toVec, val_zipWith_sub_mul hra]

theorem sqrt_nonneg (x : K) : 0 ≤ Exact.sqrt x := by
  unfold Exact.sqrt
  split_ifs with h
  · exact (Classical.choose_spec h).1
  · exact le_rfl

end Exact

open Exact

namespace SystemOperator

variable {op : SystemOperator (Exact K)} {n : Nat}

/-- The operator as a map of `K^n`. -/
def onVec (op : SystemOperator (Exact K)) (n : Nat) (v : Fin n → K) : Fin n → K :=
  toVec n (op.product (ofVec v))

theorem toVec_product {x : Array (Exact K)} (hx : x.size = n) :
    toVec n (op.product x) = op.onVec n (toVec n x) := by
  rw [onVec, ofVec_toVec hx]

/-- The operator is an `n × n` symmetric positive definite matrix: `u · A v = A u · v`, and
`u · A u > 0` for `u ≠ 0`. -/
structure PosDef (op : SystemOperator (Exact K)) (n : Nat) : Prop where
  square : op.Square n
  symm : ∀ u v : Fin n → K, u ⬝ᵥ op.onVec n v = op.onVec n u ⬝ᵥ v
  pos : ∀ u : Fin n → K, u ≠ 0 → 0 < u ⬝ᵥ op.onVec n u

end SystemOperator

namespace Preconditioner

variable {pc : Preconditioner (Exact K)} {n : Nat}

open SystemOperator

/-- The weights a diagonal preconditioner multiplies by: ones for the identity, the entries of a
Jacobi preconditioner. -/
def weights (pc : Preconditioner (Exact K)) (n : Nat) : Fin n → K :=
  match pc with
  | .identity => 1
  | .jacobi inv => toVec n inv
  | .matrix _ => 1

/-- The preconditioner multiplies by positive weights: it is the identity, or a Jacobi
preconditioner of `n` positive entries. -/
def PositiveDiagonal (pc : Preconditioner (Exact K)) (n : Nat) : Prop :=
  pc = .identity ∨ ∃ inv, pc = .jacobi inv ∧ inv.size = n ∧ ∀ i, 0 < toVec n inv i

theorem PositiveDiagonal.weights_pos [IsStrictOrderedRing K] (h : pc.PositiveDiagonal n)
    (i : Fin n) : 0 < pc.weights n i := by
  rcases h with rfl | ⟨inv, rfl, -, hpos⟩
  · exact one_pos
  · exact hpos i

/-- On a vector of length `n`, the preconditioner returns the vector times its weights. -/
theorem PositiveDiagonal.apply_eq (h : pc.PositiveDiagonal n) (y : Array (Exact K))
    {r : Array (Exact K)} (hr : r.size = n) :
    ∃ z, pc.apply y r = .ok z ∧ z.size = n ∧ toVec n z = pc.weights n * toVec n r := by
  rcases h with rfl | ⟨inv, rfl, hinv, -⟩
  · exact ⟨r, rfl, hr, by rw [weights, one_mul]⟩
  · refine ⟨r.zipWith (· * ·) inv, if_neg (by omega), by simp [hr, hinv], ?_⟩
    funext i
    simp only [toVec, weights, Pi.mul_apply]
    rw [val_zipWith (hr.trans hinv.symm) (fun u v : Exact K => u * v) (fun u v => u * v)
      (fun _ _ => rfl) (mul_zero 0), mul_comm]

omit [LinearOrder K] in
/-- Where the columns of a row are distinct, the values of the row picked out by column `c` sum to
the value of the first offset listing `c`, or zero. -/
theorem sum_map_ite_find? (col : Nat → Nat) (v : Nat → K) (c : Nat) :
    ∀ {l : List Nat}, l.Nodup → (∀ k ∈ l, ∀ k' ∈ l, col k = col k' → k = k') →
      (l.map fun k => if col k = c then v k else 0).sum =
        ((l.find? fun k => col k == c).map v).getD 0
  | [], _, _ => rfl
  | k :: l, hnd, hinj => by
    rw [List.nodup_cons] at hnd
    by_cases hk : col k = c
    · -- no later offset lists `c` again
      have hrest : (l.map fun k => if col k = c then v k else 0).sum = 0 :=
        List.sum_eq_zero fun x hx => by
          obtain ⟨k', hk', rfl⟩ := List.mem_map.1 hx
          have hne : col k' ≠ c := fun h' => hnd.1
            (hinj k' (List.mem_cons_of_mem k hk') k List.mem_cons_self (h'.trans hk.symm) ▸ hk')
          rw [if_neg hne]
      simp [hk, hrest]
    · rw [List.map_cons, List.sum_cons, if_neg hk, zero_add,
        sum_map_ite_find? col v c hnd.2 fun k₁ h₁ k₂ h₂ =>
          hinj k₁ (List.mem_cons_of_mem k h₁) k₂ (List.mem_cons_of_mem k h₂)]
      simp [hk]

/-- The Jacobi preconditioner of a sparse matrix whose product is that of a positive definite
operator has positive weights: each diagonal entry is `e_i · A e_i > 0`. -/
theorem ofCsr_positiveDiagonal [IsStrictOrderedRing K] {op : SystemOperator (Exact K)}
    (hop : op.PosDef n) {a : Csr (Exact K)} (ha : a.Valid)
    (hprod : ∀ x : Array (Exact K), x.size = n →
      (SystemOperator.sparse a).product x = op.product x)
    (h : ofCsr a = .ok pc) : pc.PositiveDiagonal n := by
  have hrows : a.nrows = n := by
    have hsize := congrArg Array.size (hprod (Array.replicate n Scalar.zero) (by simp))
    rw [SystemOperator.size_product hop.square] at hsize
    simpa [SystemOperator.product] using hsize
  simp only [ofCsr, Csr.diagonal, Violation.requireEq, bind, Except.bind] at h
  split_ifs at h with hsq
  cases h
  refine Or.inr ⟨_, rfl, by simp [hrows], fun i => ?_⟩
  -- the diagonal entry `i` is the `i`-th entry of `A e_i`
  have hdiag : (a.diagonalEntry i.val).val = op.onVec n (Pi.single i 1) i := by
    have hi : i.val < a.nrows := hrows ▸ i.isLt
    have hunit : ∀ c, ((ofVec (Pi.single i (1 : K)))[c]!).val = if c = i.val then 1 else 0 := by
      intro c
      by_cases hc : c < n
      · rw [getElem!_pos (ofVec _) c (by simpa using hc)]
        simp [ofVec, Pi.single_apply, Fin.ext_iff]
      · rw [val_getElem!_default _ (by simpa using hc), if_neg (by omega)]
    rw [SystemOperator.onVec, ← hprod _ (size_ofVec _), toVec,
      getElem!_pos _ i.val (by simpa [SystemOperator.product] using hi)]
    simp only [SystemOperator.product, Array.getElem_ofFn, val_mk, hunit, mul_ite, mul_one,
      mul_zero]
    rw [sum_map_ite_find? (l := a.pattern.positions i.val) _ (fun k => (a.values[k]!).val) _
      List.nodup_range' fun k hk k' hk' => ha.1.col_injective hi (SparsityPattern.mem_positions.1 hk).1
        (SparsityPattern.mem_positions.1 hk).2 (SparsityPattern.mem_positions.1 hk').1
        (SparsityPattern.mem_positions.1 hk').2]
    simp only [Csr.diagonalEntry, SparsityPattern.rowRange_eq, SparsityPattern.positions]
    cases List.find? (fun k => a.pattern.colIndices[k]! == i.val) (List.range'
      (a.pattern.offset i.val) (a.pattern.offset (i.val + 1) - a.pattern.offset i.val)) <;> rfl
  have hpos : 0 < (a.diagonalEntry i.val).val := by
    rw [hdiag, ← one_mul (op.onVec n (Pi.single i 1) i), ← single_dotProduct]
    exact hop.pos _ (by simp)
  simp only [toVec]
  rw [getElem!_pos _ i.val (by simp [hrows])]
  simp [hpos.ne', hpos]

end Preconditioner

namespace CgProblem

section Update

variable {ρ : Type} [RealScalar ρ] (q : CgProblem ρ)

/-- An update that returns a state has passed both checks and sets every vector of the state:
`x + α p`, `r - α A p`, the preconditioned residual `z`, `z + β p` with `β = zᵀ r` over the
previous `zᵀ r`, the product `A p`, `zᵀ r` and the count. -/
theorem update_eq_some {s s' : CgState ρ} {ap : Array ρ} (h : q.update s ap = .ok (some s')) :
    ¬ vectorDot s.p ap ≤ Scalar.zero ∧ ¬ s.zTr ≤ Scalar.zero ∧ ∃ z,
      q.precondition (s.iterations + 1) s.z
          (s.r.zipWith (fun ri api => ri - s.zTr / vectorDot s.p ap * api) ap) = .ok z ∧
      s' = ⟨s.x.zipWith (fun xi pi => xi + s.zTr / vectorDot s.p ap * pi) s.p,
        s.r.zipWith (fun ri api => ri - s.zTr / vectorDot s.p ap * api) ap, z,
        z.zipWith (fun zi pi => zi + vectorDot z (s.r.zipWith (fun ri api =>
          ri - s.zTr / vectorDot s.p ap * api) ap) / s.zTr * pi) s.p, ap,
        vectorDot z (s.r.zipWith (fun ri api => ri - s.zTr / vectorDot s.p ap * api) ap),
        s.iterations + 1⟩ := by
  rcases q.update_cases s ap with ⟨-, hu⟩ | ⟨-, -, hu⟩ | ⟨hpAp, hzTr, hu⟩
  · rw [hu] at h; cases h
  · rw [hu] at h; cases h
  rw [hu] at h
  cases hz : q.precondition (s.iterations + 1) s.z
      (s.r.zipWith (fun ri api => ri - s.zTr / vectorDot s.p ap * api) ap) with
  | error f => rw [hz] at h; cases h
  | ok z =>
    rw [hz] at h
    cases h
    exact ⟨hpAp, hzTr, z, rfl, rfl⟩

theorem step_eq_none_of_converged {s : CgState ρ} (h : vectorNorm s.r ≤ q.tol * q.bNorm) :
    q.step s = .ok none := by
  simp only [step, if_pos h]
  rfl

/-- A step that updates has found the residual too large. -/
theorem not_converged_of_step {s s' : CgState ρ} (h : q.step s = .ok (some s')) :
    ¬ vectorNorm s.r ≤ q.tol * q.bNorm := by
  rcases q.step_cases s with ⟨-, h'⟩ | ⟨hconv, -⟩ | ⟨hconv, -⟩ | ⟨hconv, -⟩
  · rw [h'] at h; cases h
  all_goals exact hconv

/-- The states a run passes through, in order. -/
theorem Reaches.exists_path {s₀ t : CgState ρ} {k : Nat} (h : q.Reaches s₀ k t) :
    ∃ σ : Nat → CgState ρ, σ 0 = s₀ ∧ σ k = t ∧ ∀ j < k, q.step (σ j) = .ok (some (σ (j + 1))) := by
  induction h with
  | start => exact ⟨fun _ => s₀, rfl, rfl, fun j hj => absurd hj (Nat.not_lt_zero j)⟩
  | @next k s s' _ hs ih =>
    obtain ⟨σ, h0, hk, hσ⟩ := ih
    refine ⟨fun j => if j ≤ k then σ j else s', by simp [h0], by simp, fun j hj => ?_⟩
    rcases Nat.lt_or_ge j k with hjk | hjk
    · simp only [if_pos (Nat.le_of_lt hjk), if_pos (show j + 1 ≤ k by omega)]
      exact hσ j hjk
    · obtain rfl : j = k := by omega
      simp only [le_refl, if_true, show ¬ j + 1 ≤ j by omega, if_false, hk]
      exact hs

end Update

section Exact

variable {q : CgProblem (Exact K)} {n : Nat}

/-- The invariant of the states of a run: vectors of length `n`, the preconditioned residual
`z = w r` for the preconditioner's weights `w`, and `zᵀ r` as stored. -/
structure Coherent (q : CgProblem (Exact K)) (n : Nat) (s : CgState (Exact K)) : Prop where
  size_x : s.x.size = n
  size_r : s.r.size = n
  size_z : s.z.size = n
  size_p : s.p.size = n
  size_ap : s.ap.size = n
  z_eq : toVec n s.z = q.preconditioner.weights n * toVec n s.r
  zTr_eq : s.zTr.val = (q.preconditioner.weights n * toVec n s.r) ⬝ᵥ toVec n s.r

variable (hop : q.operator.PosDef n) (hpc : q.preconditioner.PositiveDiagonal n)
include hop hpc

omit hop in
/-- The preconditioner of the problem succeeds on every vector of length `n`. -/
theorem precondition_eq (it : Nat) (y : Array (Exact K)) {r : Array (Exact K)} (hr : r.size = n) :
    ∃ z, q.precondition it y r = .ok z ∧ z.size = n ∧
      toVec n z = q.preconditioner.weights n * toVec n r := by
  obtain ⟨z, hz, hsize, hvec⟩ := hpc.apply_eq y hr
  refine ⟨z, ?_, hsize, hvec⟩
  simp only [precondition, hz]
  rfl

/-- A step from a coherent state that updates is one update of the conjugate gradient recurrences
on the residual and the direction, and leads to a coherent state. -/
theorem step_conjugate {s s' : CgState (Exact K)} (hs : q.Coherent n s)
    (h : q.step s = .ok (some s')) :
    q.Coherent n s' ∧ ConjugateStep (q.operator.onVec n) (q.preconditioner.weights n)
      (toVec n s.r) (toVec n s.p) (toVec n s'.r) (toVec n s'.p) := by
  obtain ⟨-, ap, hap, hu⟩ := q.step_eq_some h
  obtain ⟨-, -, rfl⟩ := (SystemOperator.apply_eq_ok_iff hop.square _ _ _).1 hap
  obtain ⟨hpAp, hzTr, z, hz, rfl⟩ := q.update_eq_some hu
  have hprod : (q.operator.product s.p).size = n := SystemOperator.size_product hop.square _
  set r' := s.r.zipWith (fun ri api => ri - s.zTr / vectorDot s.p (q.operator.product s.p) * api)
    (q.operator.product s.p) with hr'
  have hrsize : r'.size = n := by simp [hr', hs.size_r, hprod]
  obtain ⟨z', hz', hzsize, hzvec⟩ := precondition_eq hpc (s.iterations + 1) s.z hrsize
  rw [hz] at hz'
  cases hz'
  -- the divisors and the new residual, read on vectors
  have hpAp' : (vectorDot s.p (q.operator.product s.p)).val =
      toVec n s.p ⬝ᵥ q.operator.onVec n (toVec n s.p) := by
    rw [vectorDot_eq hs.size_p, SystemOperator.toVec_product hs.size_p]
  have hres : toVec n r' = toVec n s.r -
      ((q.preconditioner.weights n * toVec n s.r) ⬝ᵥ toVec n s.r /
        toVec n s.p ⬝ᵥ q.operator.onVec n (toVec n s.p)) • q.operator.onVec n (toVec n s.p) := by
    rw [hr', toVec_zipWith_sub_mul (by rw [hs.size_r, hprod]),
      SystemOperator.toVec_product hs.size_p, Exact.val_div, hs.zTr_eq, hpAp']
  have hzr : (vectorDot z r').val = (q.preconditioner.weights n * toVec n r') ⬝ᵥ toVec n r' := by
    rw [vectorDot_eq hzsize, hzvec]
  refine ⟨⟨by simp [hs.size_x, hs.size_p], hrsize, hzsize, by simp [hzsize, hs.size_p], hprod,
    hzvec, hzr⟩, ⟨hres, ?_, ?_, ?_⟩⟩
  · rw [toVec_zipWith_add_mul (by rw [hzsize, hs.size_p]), hzvec, Exact.val_div, hzr, hs.zTr_eq]
  · rw [← hs.zTr_eq]
    simpa using hzTr
  · rw [← hpAp']
    simpa using hpAp

/-- The state before the first update is coherent, with its preconditioned residual as direction
and a count of zero. -/
theorem start_coherent {b x0 : Array (Exact K)} (hb : b.size = n) (hx : x0.size = n) :
    ∃ s₀, q.start b x0 = .ok s₀ ∧ q.Coherent n s₀ ∧ s₀.p = s₀.z ∧ s₀.iterations = 0 := by
  have hax : q.operator.apply (Array.replicate x0.size Scalar.zero) x0 =
      .ok (q.operator.product x0) :=
    (SystemOperator.apply_eq_ok_iff hop.square _ _ _).2 ⟨by simp [hx], hx, rfl⟩
  have hprod := SystemOperator.size_product hop.square x0
  set r := b.zipWith (fun bi axi => bi - axi) (q.operator.product x0) with hr
  have hrsize : r.size = n := by simp [hr, hb, hprod]
  obtain ⟨z, hz, hzsize, hzvec⟩ :=
    precondition_eq hpc 0 (Array.replicate x0.size Scalar.zero) hrsize
  refine ⟨⟨x0, r, z, z, Array.replicate x0.size Scalar.zero, vectorDot z r, 0⟩, ?_,
    ⟨hx, hrsize, hzsize, hzsize, by simp [hx], hzvec, by rw [vectorDot_eq hzsize, hzvec]⟩,
    rfl, rfl⟩
  simp only [start, hax, Failure.lift, Except.mapError, bind, Except.bind, ← hr, hz]
  rfl

/-- Along a run from a coherent state whose direction is its preconditioned residual, each state
is coherent, and the residuals and directions follow the conjugate gradient recurrences. -/
theorem Reaches.conjugateRun {s₀ t : CgState (Exact K)} {k : Nat} (h : q.Reaches s₀ k t)
    (h₀ : q.Coherent n s₀) (hp₀ : s₀.p = s₀.z) :
    ∃ σ : Nat → CgState (Exact K), σ 0 = s₀ ∧ σ k = t ∧ (∀ j ≤ k, q.Coherent n (σ j)) ∧
      (∀ j < k, q.step (σ j) = .ok (some (σ (j + 1)))) ∧
      ConjugateRun (q.operator.onVec n) (q.preconditioner.weights n)
        (fun j => toVec n (σ j).r) (fun j => toVec n (σ j).p) k := by
  obtain ⟨σ, h0, hk, hσ⟩ := h.exists_path
  -- coherence travels along the path, one step at a time
  have hcoh : ∀ j ≤ k, q.Coherent n (σ j) := by
    intro j hj
    induction j with
    | zero => rwa [h0]
    | succ j ih => exact (step_conjugate hop hpc (ih (by omega)) (hσ j (by omega))).1
  refine ⟨σ, h0, hk, hcoh, hσ, ⟨?_, fun j hj =>
    (step_conjugate hop hpc (hcoh j (by omega)) (hσ j hj)).2⟩⟩
  show toVec n (σ 0).p = _
  rw [h0, hp₀, h₀.z_eq]

variable [IsStrictOrderedRing K]

omit hop hpc in
/-- A residual that fails the stopping test is nonzero, for a nonnegative tolerance and norm. -/
theorem toVec_ne_zero_of_not_converged (htol : 0 ≤ q.tol.val) (hb : 0 ≤ q.bNorm.val)
    {s : CgState (Exact K)} (hs : s.r.size = n) (h : ¬ vectorNorm s.r ≤ q.tol * q.bNorm) :
    toVec n s.r ≠ 0 := by
  intro h0
  apply h
  rw [Exact.le_iff, vectorNorm_eq_zero (toVec_eq_zero hs h0), Exact.val_mul]
  exact mul_nonneg htol hb

variable (htol : 0 ≤ q.tol.val) (hb : 0 ≤ q.bNorm.val)
include htol hb

/-- A run from a coherent start whose direction is its preconditioned residual fails the stopping
test only within its first `n` updates: the residuals it steps from and the last one are nonzero
and orthogonal. -/
theorem Reaches.lt_of_not_converged {s₀ t : CgState (Exact K)} {k : Nat} (h : q.Reaches s₀ k t)
    (h₀ : q.Coherent n s₀) (hp₀ : s₀.p = s₀.z) (hnc : ¬ vectorNorm t.r ≤ q.tol * q.bNorm) :
    k < n := by
  obtain ⟨σ, -, hk, hcoh, hσ, hrun⟩ := h.conjugateRun hop hpc h₀ hp₀
  refine hrun.lt_of_ne_zero hop.symm hpc.weights_pos fun j hj => ?_
  refine toVec_ne_zero_of_not_converged htol hb (hcoh j hj).size_r ?_
  rcases Nat.lt_or_ge j k with hjk | hjk
  · exact q.not_converged_of_step (hσ j hjk)
  · obtain rfl : j = k := by omega
    rwa [hk]

/-- A run from such a start makes at most `n` updates. -/
theorem Reaches.le {s₀ t : CgState (Exact K)} {k : Nat} (h : q.Reaches s₀ k t)
    (h₀ : q.Coherent n s₀) (hp₀ : s₀.p = s₀.z) : k ≤ n := by
  cases h with
  | start => exact Nat.zero_le n
  | next hr hs => exact hr.lt_of_not_converged hop hpc htol hb h₀ hp₀ (q.not_converged_of_step hs)

/-- From a state a run reaches where the test fails, the step updates or stops at the bound on
updates: the product and the preconditioner fit, and both divisors are positive, `pᵀ A p` because
the direction meets the nonzero residual as the preconditioned residual does. -/
theorem Reaches.step_ok_or_bound {s₀ t : CgState (Exact K)} {k : Nat} (h : q.Reaches s₀ k t)
    (h₀ : q.Coherent n s₀) (hp₀ : s₀.p = s₀.z) (hnc : ¬ vectorNorm t.r ≤ q.tol * q.bNorm) :
    (∃ t', q.step t = .ok (some t')) ∨ ∃ m, q.maxIter = some m ∧ m ≤ t.iterations ∧
      q.step t = .error (.error ⟨t.iterations, .maxIterationsReached m⟩) := by
  obtain ⟨σ, -, hk, hcoh, -, hrun⟩ := h.conjugateRun hop hpc h₀ hp₀
  have ht : q.Coherent n t := hk ▸ hcoh k le_rfl
  have hdr : toVec n t.p ⬝ᵥ toVec n t.r =
      (q.preconditioner.weights n * toVec n t.r) ⬝ᵥ toVec n t.r := by
    have := (hrun.conjugate hop.symm).dir_res
    rwa [hk] at this
  have hzr : 0 < (q.preconditioner.weights n * toVec n t.r) ⬝ᵥ toVec n t.r :=
    weighted_dotProduct_self_pos hpc.weights_pos
      (toVec_ne_zero_of_not_converged htol hb ht.size_r hnc)
  have hp : toVec n t.p ≠ 0 := fun hp => by
    rw [hp, zero_dotProduct] at hdr
    exact hzr.ne hdr
  have hpAp := hop.pos _ hp
  have hap : q.operator.apply t.ap t.p = .ok (q.operator.product t.p) :=
    (SystemOperator.apply_eq_ok_iff hop.square _ _ _).2 ⟨ht.size_ap, ht.size_p, rfl⟩
  rcases q.step_cases t with ⟨hconv, -⟩ | ⟨-, m, hm, hle, hstep⟩ | ⟨-, -, v, hv, -⟩ |
      ⟨-, -, ap, hap', hstep⟩
  · exact absurd hconv hnc
  · exact Or.inr ⟨m, hm, hle, hstep⟩
  · rw [hap] at hv
    cases hv
  rw [hap] at hap'
  cases hap'
  refine Or.inl ?_
  rw [hstep]
  rcases q.update_cases t (q.operator.product t.p) with ⟨hle, -⟩ | ⟨-, hle, -⟩ | ⟨-, -, hu⟩
  · rw [Exact.le_iff, vectorDot_eq ht.size_p, SystemOperator.toVec_product ht.size_p] at hle
    exact absurd hle (not_le.2 hpAp)
  · rw [Exact.le_iff, ht.zTr_eq] at hle
    exact absurd hle (not_le.2 hzr)
  obtain ⟨z, hz, -, -⟩ := precondition_eq hpc (t.iterations + 1) t.z
    (r := t.r.zipWith (fun ri api => ri - t.zTr / vectorDot t.p (q.operator.product t.p) * api)
      (q.operator.product t.p)) (by simp [ht.size_r, SystemOperator.size_product hop.square])
  rw [hu, hz]
  exact ⟨_, rfl⟩

/-- From a state a run reaches where the test fails, with a bound of at least `n` updates if
there is one, the step updates: the bound lies past the `n` updates a run can make. -/
theorem Reaches.step_ok (hmax : ∀ m, q.maxIter = some m → n ≤ m) {s₀ t : CgState (Exact K)}
    {k : Nat} (h : q.Reaches s₀ k t) (h₀ : q.Coherent n s₀) (hp₀ : s₀.p = s₀.z)
    (hit₀ : s₀.iterations = 0) (hnc : ¬ vectorNorm t.r ≤ q.tol * q.bNorm) :
    ∃ t', q.step t = .ok (some t') := by
  rcases h.step_ok_or_bound hop hpc htol hb h₀ hp₀ hnc with hs | ⟨m, hm, hle, -⟩
  · exact hs
  · have := hmax m hm
    have hkn := h.lt_of_not_converged hop hpc htol hb h₀ hp₀ hnc
    rw [h.iterations, hit₀] at hle
    omega

/-- With fuel past `n` updates, a run from a reached state returns a reached state, within `n`
updates in all: by induction on the fuel, each step either stops or updates. -/
theorem Reaches.iterate_ok (hmax : ∀ m, q.maxIter = some m → n ≤ m) {s₀ : CgState (Exact K)}
    (h₀ : q.Coherent n s₀) (hp₀ : s₀.p = s₀.z) (hit₀ : s₀.iterations = 0) :
    ∀ fuel {k : Nat} {t : CgState (Exact K)}, q.Reaches s₀ k t → n < k + fuel →
      ∃ k' t', q.iterate fuel t = .ok t' ∧ q.Reaches s₀ k' t' ∧ k' ≤ n
  | 0, _, _, h, hf => absurd hf (Nat.not_lt.2 (h.le hop hpc htol hb h₀ hp₀))
  | fuel + 1, k, t, h, hf => by
    by_cases hconv : vectorNorm t.r ≤ q.tol * q.bNorm
    · refine ⟨k, t, ?_, h, h.le hop hpc htol hb h₀ hp₀⟩
      simp only [iterate, q.step_eq_none_of_converged hconv]
      rfl
    · obtain ⟨t', ht'⟩ := h.step_ok hop hpc htol hb hmax h₀ hp₀ hit₀ hconv
      obtain ⟨k', t'', hit, hr, hle⟩ := Reaches.iterate_ok hmax h₀ hp₀ hit₀ fuel (h.next ht')
        (by omega)
      refine ⟨k', t'', ?_, hr, hle⟩
      simp only [iterate, ht']
      exact hit

/-- Whatever its fuel, a run from a reached state returns, or stops at the bound on updates:
by induction on the fuel, each step stops, updates, or meets the bound. -/
theorem Reaches.iterate_ok_or_bound {s₀ : CgState (Exact K)} (h₀ : q.Coherent n s₀)
    (hp₀ : s₀.p = s₀.z) :
    ∀ fuel {k : Nat} {t : CgState (Exact K)}, q.Reaches s₀ k t →
      (∃ t', q.iterate fuel t = .ok t') ∨
        ∃ it m, q.iterate fuel t = .error (.error ⟨it, .maxIterationsReached m⟩)
  | 0, _, _, _ => Or.inr ⟨_, _, rfl⟩
  | fuel + 1, _, t, h => by
    by_cases hconv : vectorNorm t.r ≤ q.tol * q.bNorm
    · refine Or.inl ⟨t, ?_⟩
      simp only [iterate, q.step_eq_none_of_converged hconv]
      rfl
    · rcases h.step_ok_or_bound hop hpc htol hb h₀ hp₀ hconv with ⟨t', ht'⟩ | ⟨m, -, -, hm⟩
      · simp only [iterate, ht']
        exact Reaches.iterate_ok_or_bound h₀ hp₀ fuel (h.next ht')
      · refine Or.inr ⟨t.iterations, m, ?_⟩
        simp only [iterate, hm]
        rfl

end Exact

/-- Conjugate gradients terminate. In exact arithmetic over an ordered field, for a symmetric
positive definite operator of size `n`, dense or sparse, with the identity or the Jacobi
preconditioner of a sparse form of it, a tolerance `tol ≥ 0`, a right-hand side and a guess of
length `n`, and a bound of at least `n` updates (or none, the fuel then past `n`), the solve
returns after at most `n` updates: it never reports an indefinite operator or preconditioner,
nor reaches its bound. -/
theorem conjugateGradient_terminates [IsStrictOrderedRing K] {n : Nat}
    (op : SystemOperator (Exact K)) (pc : Preconditioner (Exact K)) (tol : Exact K)
    (maxIter : Option Nat) (fuel : Nat) (b x0 : Array (Exact K)) (hop : op.PosDef n)
    (hpc : pc = .identity ∨ ∃ a : Csr (Exact K), a.Valid ∧
      (∀ x : Array (Exact K), x.size = n → (SystemOperator.sparse a).product x = op.product x) ∧
      Preconditioner.ofCsr a = .ok pc)
    (htol : 0 ≤ tol.val) (hb : b.size = n) (hx : x0.size = n)
    (hmax : ∀ m, maxIter = some m → n ≤ m) (hfuel : maxIter = none → n < fuel) :
    ∃ x it, conjugateGradient op pc tol maxIter fuel b x0 = .ok (x, it) ∧ it ≤ n := by
  have hpd : pc.PositiveDiagonal n := by
    rcases hpc with rfl | ⟨a, ha, hprod, hof⟩
    · exact Or.inl rfl
    · exact Preconditioner.ofCsr_positiveDiagonal hop ha hprod hof
  simp only [conjugateGradient, Violation.requireEq, if_pos (hb.trans hx.symm), Failure.lift,
    Except.mapError, bind, Except.bind]
  cases hz : Scalar.isZero (vectorNorm b) with
  | true => exact ⟨_, 0, by simp only [if_true]; rfl, Nat.zero_le n⟩
  | false =>
    simp only [Bool.false_eq_true, if_false]
    -- the run from the state before the first update, with fuel past `n`
    let q : CgProblem (Exact K) := ⟨op, pc, vectorNorm b, tol, maxIter⟩
    obtain ⟨s₀, hs₀, h₀, hp₀, hit₀⟩ := start_coherent (q := q) hop hpd hb hx
    have hfuel' : n < 0 + (maxIter.map (· + 1)).getD fuel := by
      cases hm : maxIter with
      | none => simpa using hfuel hm
      | some m =>
        have := hmax m hm
        simp only [Option.map_some, Option.getD_some]
        omega
    obtain ⟨k, t, hit, hr, hk⟩ := Reaches.iterate_ok (q := q) hop hpd htol
      (Exact.sqrt_nonneg _) hmax h₀ hp₀ hit₀ _ .start hfuel'
    refine ⟨t.x, t.iterations, ?_, by rw [hr.iterations, hit₀]; omega⟩
    rw [hs₀]
    simp only
    rw [hit]
    rfl

/-- In exact arithmetic, conjugate gradients on a symmetric positive definite operator of size
`n`, with the identity or a Jacobi preconditioner of positive weights, a tolerance `tol ≥ 0`, and a
right-hand side and a guess of length `n`, never find the operator or the preconditioner
indefinite, whatever the bound on updates and the fuel: the solve returns, or stops at its bound. -/
theorem conjugateGradient_ok_or_bound [IsStrictOrderedRing K] {n : Nat}
    (op : SystemOperator (Exact K)) (pc : Preconditioner (Exact K)) (tol : Exact K)
    (maxIter : Option Nat) (fuel : Nat) (b x0 : Array (Exact K)) (hop : op.PosDef n)
    (hpc : pc.PositiveDiagonal n) (htol : 0 ≤ tol.val) (hb : b.size = n) (hx : x0.size = n) :
    (∃ x it, conjugateGradient op pc tol maxIter fuel b x0 = .ok (x, it)) ∨
      ∃ it m, conjugateGradient op pc tol maxIter fuel b x0 =
        .error (.error ⟨it, .maxIterationsReached m⟩) := by
  simp only [conjugateGradient, Violation.requireEq, if_pos (hb.trans hx.symm), Failure.lift,
    Except.mapError, bind, Except.bind]
  cases hz : Scalar.isZero (vectorNorm b) with
  | true => exact Or.inl ⟨_, 0, by simp only [if_true]; rfl⟩
  | false =>
    simp only [Bool.false_eq_true, if_false]
    let q : CgProblem (Exact K) := ⟨op, pc, vectorNorm b, tol, maxIter⟩
    obtain ⟨s₀, hs₀, h₀, hp₀, -⟩ := start_coherent (q := q) hop hpc hb hx
    rw [hs₀]
    rcases Reaches.iterate_ok_or_bound (q := q) hop hpc htol (Exact.sqrt_nonneg _) h₀ hp₀
        ((maxIter.map (· + 1)).getD fuel) .start with ⟨t, ht⟩ | ⟨it, m, ht⟩
    · exact Or.inl ⟨t.x, t.iterations, by simp only; rw [ht]; rfl⟩
    · exact Or.inr ⟨it, m, by simp only; rw [ht]⟩

/-- The one-dimensional Laplacian on two points, `[[2, -1], [-1, 2]]`. -/
def laplacianOperator : SystemOperator (Exact ℚ) :=
  .dense ⟨2, 2, #[Exact.mk 2, Exact.mk (-1), Exact.mk (-1), Exact.mk 2]⟩

theorem laplacianOperator_onVec (v : Fin 2 → ℚ) :
    laplacianOperator.onVec 2 v = ![2 * v 0 - v 1, 2 * v 1 - v 0] := by
  funext i
  fin_cases i <;>
  simp [SystemOperator.onVec, toVec, SystemOperator.product, laplacianOperator, Matrix.get,
    Finset.sum_range_succ, ofVec] <;> ring

/-- The Laplacian is positive definite: `u · A u = u₀² + u₁² + (u₀ - u₁)²`. -/
theorem laplacianOperator_posDef : laplacianOperator.PosDef 2 where
  square := ⟨rfl, rfl⟩
  symm u v := by
    simp [laplacianOperator_onVec, dotProduct, Fin.sum_univ_two]
    ring
  pos u hu := by
    have hne : u 0 ≠ 0 ∨ u 1 ≠ 0 := by
      by_contra h
      rw [not_or, not_not, not_not] at h
      exact hu (funext fun i => by fin_cases i <;> simp [h.1, h.2])
    simp [laplacianOperator_onVec, dotProduct, Fin.sum_univ_two]
    rcases hne with h | h
    · nlinarith [mul_self_pos.2 h, mul_self_nonneg (u 1), mul_self_nonneg (u 0 - u 1)]
    · nlinarith [mul_self_pos.2 h, mul_self_nonneg (u 0), mul_self_nonneg (u 0 - u 1)]

/-- On the Laplacian with `b = (3, 4)`, of norm `5`, unpreconditioned CG converges within two
updates. -/
theorem conjugateGradient_terminates_on_laplacian :
    laplacianOperator.PosDef 2 ∧ ∃ x it, conjugateGradient laplacianOperator .identity
      (Exact.mk 0) none 3 #[Exact.mk 3, Exact.mk 4] #[Exact.mk 0, Exact.mk 0] = .ok (x, it) ∧
      it ≤ 2 :=
  ⟨laplacianOperator_posDef, conjugateGradient_terminates _ _ _ _ _ _ _ laplacianOperator_posDef
    (Or.inl rfl) le_rfl rfl rfl (fun _ h => by cases h) (fun _ => by decide)⟩

end CgProblem

end MixedFem
