import MixedFem.Proofs.Sparse.Cg
import MixedFem.Proofs.Sparse.Distance

/-!
# Conjugate gradients are homogeneous in the right-hand side

In exact arithmetic, scaling the right-hand side and the guess by `c ≠ 0` scales every vector of
the iteration by `c`, and `zᵀ r` and `pᵀ A p` by `c²`. The step sizes `α` and `β`, the signs the
solver checks and its stopping test `‖r‖ ≤ tol ‖b‖` are then those of the unscaled run, so the
two runs take the same branches at every step and end alike, after the same number of updates.

* `Exact.sqrt_mul_self_mul` : `√(c² d) = |c| √d`, the square roots existing or not alike;
* `vectorDot_map_mul`, `vectorNorm_map_mul` : a dot product scales by `c²`, a norm by `|c|`;
* `SystemOperator.apply_map_mul`, `Preconditioner.apply_map_mul` : the operator and every
  preconditioner are linear, and refuse a scaled vector as they refuse the vector itself,
  whatever the buffer they write over holds;
* `CgState.scale c s`, `CgProblem.scaled q c` : a state with its vectors times `c`, and the
  problem whose right-hand side is `c` times larger;
* `update_scale`, `step_scale`, `iterate_scale`, `start_scale` : each piece of the solver commutes
  with scaling; `conjugateGradient_scale` : so does the solve;
* `conjugateGradient_homogeneous` : from a zero guess, the solve on `c b` returns the result on
  `b` with its solution times `c`, and fails exactly as it does.
-/

namespace MixedFem

variable {K : Type} [Field K] [LinearOrder K]

namespace Exact

variable [IsStrictOrderedRing K]

/-- A square root scales by `|c|`: `c y` is a root of `c² d` exactly when `y` is one of `d`. -/
theorem sqrt_mul_self_mul {c : K} (hc : c ≠ 0) (d : K) : sqrt (c * c * d) = |c| * sqrt d := by
  by_cases h : ∃ y, 0 ≤ y ∧ y * y = d
  · obtain ⟨hr, hrr⟩ := sqrt_spec h
    have hroot : 0 ≤ |c| * sqrt d ∧ |c| * sqrt d * (|c| * sqrt d) = c * c * d := by
      refine ⟨mul_nonneg (abs_nonneg c) hr, ?_⟩
      rw [mul_mul_mul_comm, abs_mul_abs_self, hrr]
    obtain ⟨hs, hss⟩ := sqrt_spec ⟨_, hroot⟩
    exact (mul_self_inj hs hroot.1).1 (hss.trans hroot.2.symm)
  · -- no root of `d`, so none of `c² d`: a root `y` of it gives the root `y / |c|` of `d`
    have hc' : 0 < |c| := abs_pos.2 hc
    have hno : ¬ ∃ y, 0 ≤ y ∧ y * y = c * c * d := by
      rintro ⟨y, hy, hyy⟩
      refine h ⟨y / |c|, div_nonneg hy hc'.le, ?_⟩
      rw [div_mul_div_comm, hyy, abs_mul_abs_self, mul_comm (c * c) d,
        mul_div_assoc, div_self (mul_self_ne_zero.2 hc), mul_one]
    rw [sqrt, dif_neg hno, sqrt, dif_neg h, mul_zero]

end Exact

section Vectors

variable (c : Exact K)

theorem Exact.val_getElem!_map_mul (x : Array (Exact K)) (i : Nat) :
    ((x.map (c * ·))[i]!).val = c.val * (x[i]!).val := by
  by_cases hi : i < x.size
  · rw [getElem!_pos _ i (by simpa using hi), getElem!_pos x i hi, Array.getElem_map, Exact.val_mul]
  · rw [Exact.val_getElem!_default _ (by simpa using hi), Exact.val_getElem!_default x (by omega),
      mul_zero]

/-- An entrywise operation that commutes with scaling commutes with scaling both vectors. -/
theorem zipWith_map_mul {f : Exact K → Exact K → Exact K} (hf : ∀ a b, f (c * a) (c * b) = c * f a b)
    (x y : Array (Exact K)) : (x.map (c * ·)).zipWith f (y.map (c * ·)) = (x.zipWith f y).map (c * ·) := by
  rw [Array.zipWith_map, Array.map_zipWith]
  simp only [hf]

/-- An entrywise operation linear in its first argument commutes with scaling that one. -/
theorem zipWith_map_mul_left {f : Exact K → Exact K → Exact K} (hf : ∀ a b, f (c * a) b = c * f a b)
    (x y : Array (Exact K)) : (x.map (c * ·)).zipWith f y = (x.zipWith f y).map (c * ·) := by
  rw [← Array.map_id y, Array.zipWith_map, Array.map_zipWith, Array.map_id]
  simp only [id, hf]

theorem map_mul_replicate_zero (n : Nat) :
    (Array.replicate n (Scalar.zero : Exact K)).map (c * ·) = Array.replicate n Scalar.zero := by
  rw [Array.map_replicate]
  congr 1
  exact Exact.ext (mul_zero c.val)

/-- A dot product of two scaled vectors scales by `c²`. -/
theorem vectorDot_map_mul (x y : Array (Exact K)) :
    vectorDot (x.map (c * ·)) (y.map (c * ·)) = c * c * vectorDot x y := by
  ext
  rw [Exact.val_mul, Exact.val_mul, vectorDot_val, vectorDot_val, Array.size_map, Finset.mul_sum]
  refine Finset.sum_congr rfl fun i _ => ?_
  rw [Exact.val_getElem!_map_mul, Exact.val_getElem!_map_mul]
  ring

variable [IsStrictOrderedRing K]

/-- A norm scales by `|c|`. -/
theorem vectorNorm_map_mul {c : Exact K} (hc : c.val ≠ 0) (x : Array (Exact K)) :
    vectorNorm (x.map (c * ·)) = RealScalar.abs c * vectorNorm x := by
  ext
  show Exact.sqrt (0 + (vectorDot (x.map (c * ·)) (x.map (c * ·))).val) =
    |c.val| * Exact.sqrt (0 + (vectorDot x x).val)
  rw [vectorDot_map_mul, Exact.val_mul, Exact.val_mul, zero_add, zero_add,
    Exact.sqrt_mul_self_mul hc]

/-- Scaling by `c²` keeps the sign of a value. -/
theorem mul_self_mul_le_zero_iff {c : Exact K} (hc : c.val ≠ 0) (a : Exact K) :
    c * c * a ≤ Scalar.zero ↔ a ≤ Scalar.zero := by
  simp only [Exact.le_iff, Exact.val_mul, Exact.val_zero]
  calc c.val * c.val * a.val ≤ 0 ↔ c.val * c.val * a.val ≤ c.val * c.val * 0 := by rw [mul_zero]
    _ ↔ a.val ≤ 0 := mul_le_mul_iff_of_pos_left (mul_self_pos.2 hc)

theorem mul_self_mul_div {c : Exact K} (hc : c.val ≠ 0) (a b : Exact K) :
    c * c * a / (c * c * b) = a / b :=
  Exact.ext (mul_div_mul_left a.val b.val (mul_self_ne_zero.2 hc))

end Vectors

namespace SystemOperator

variable (c : Exact K)

/-- The operator is linear and checks only sizes: on a scaled vector, with a buffer of the same
length whatever it holds, it returns the scaled product or refuses alike. -/
theorem apply_map_mul (op : SystemOperator (Exact K)) {y y' : Array (Exact K)} (hy : y'.size = y.size)
    (x : Array (Exact K)) : op.apply y' (x.map (c * ·)) = Array.map (c * ·) <$> op.apply y x := by
  cases op with
  | sparse a =>
    simp only [apply, Csr.mulVecInto, Violation.requireEq, hy, Array.size_map]
    by_cases h₁ : y.size = a.nrows
    · by_cases h₃ : a.ncols = x.size
      · simp only [h₁, h₃, if_true]
        show Except.ok _ = Except.ok _
        congr 1
        refine Array.ext (by simp [hy]) fun i hi hi' => ?_
        rw [Array.getElem_map, Array.getElem_mapIdx, Array.getElem_mapIdx, mulVecInto_row,
          mulVecInto_row]
        ext
        simp only [Exact.val_mk, Exact.val_mul, Exact.val_getElem!_map_mul, mul_left_comm _ c.val,
          List.sum_map_mul_left]
      · simp only [h₁, h₃, if_true, if_false]
        rfl
    · simp only [h₁, if_false]
      rfl
  | dense m =>
    simp only [apply, Violation.require, hy, Array.size_map]
    split
    · by_cases h0 : m.cols = 0
      · simp only [h0, if_true]
        exact congrArg Except.ok (map_mul_replicate_zero c m.rows).symm
      · simp only [h0, if_false]
        show Except.ok _ = Except.ok _
        congr 1
        rw [mulVec_eq_product, mulVec_eq_product]
        refine Array.ext (by simp [product]) fun i hi hi' => ?_
        ext
        simp only [product, Array.getElem_ofFn, Array.getElem_map, Exact.val_mk, Exact.val_mul,
          Exact.val_getElem!_map_mul, mul_left_comm _ c.val, Finset.mul_sum]
    · rfl

end SystemOperator

namespace Preconditioner

variable (c : Exact K)

/-- Every preconditioner is linear, and refuses a scaled vector as it refuses the vector. -/
theorem apply_map_mul (pc : Preconditioner (Exact K)) {y y' : Array (Exact K)} (hy : y'.size = y.size)
    (r : Array (Exact K)) : pc.apply y' (r.map (c * ·)) = Array.map (c * ·) <$> pc.apply y r := by
  cases pc with
  | identity => rfl
  | jacobi inv =>
    simp only [apply, Array.size_map]
    split
    · rfl
    · exact congrArg Except.ok (zipWith_map_mul_left c (fun a b => Exact.ext (mul_assoc _ _ _)) r inv)
  | matrix op =>
    simp only [apply, SystemOperator.apply_map_mul c op hy r]
    cases op.apply y r <;> rfl

end Preconditioner

/-- The state with its vectors times `c` and `zᵀ r` times `c²`. -/
def CgState.scale (c : Exact K) (s : CgState (Exact K)) : CgState (Exact K) :=
  ⟨s.x.map (c * ·), s.r.map (c * ·), s.z.map (c * ·), s.p.map (c * ·), s.ap.map (c * ·),
    c * c * s.zTr, s.iterations⟩

namespace CgProblem

/-- The problem of the right-hand side times `c`: its norm is `|c|` times larger. -/
noncomputable def scaled (q : CgProblem (Exact K)) (c : Exact K) : CgProblem (Exact K) :=
  { q with bNorm := RealScalar.abs c * q.bNorm }

variable (q : CgProblem (Exact K)) (c : Exact K)

theorem precondition_map_mul (it : Nat) {y y' : Array (Exact K)} (hy : y'.size = y.size)
    (r : Array (Exact K)) :
    (q.scaled c).precondition it y' (r.map (c * ·)) = Array.map (c * ·) <$> q.precondition it y r := by
  simp only [precondition, scaled, Preconditioner.apply_map_mul c _ hy r]
  cases q.preconditioner.apply y r with
  | error f => cases f <;> rfl
  | ok z => rfl

theorem start_scale (b x0 : Array (Exact K)) :
    (q.scaled c).start (b.map (c * ·)) (x0.map (c * ·)) = CgState.scale c <$> q.start b x0 := by
  have hax := SystemOperator.apply_map_mul c q.operator
    (y := Array.replicate x0.size Scalar.zero) rfl x0
  simp only [start, Array.size_map]
  simp only [scaled] at hax ⊢
  rw [hax]
  cases q.operator.apply (Array.replicate x0.size Scalar.zero) x0 with
  | error v => rfl
  | ok ax =>
    simp only [Failure.lift, Except.mapError, Functor.map, Except.map, bind, Except.bind]
    rw [zipWith_map_mul c (f := fun bi axi => bi - axi)
      (fun a b => Exact.ext (mul_sub c.val a.val b.val).symm)]
    have hz := q.precondition_map_mul c 0 (y := Array.replicate x0.size Scalar.zero) rfl
      (b.zipWith (fun bi axi => bi - axi) ax)
    simp only [scaled] at hz
    rw [hz]
    cases q.precondition 0 (Array.replicate x0.size Scalar.zero)
        (b.zipWith (fun bi axi => bi - axi) ax) with
    | error f => rfl
    | ok z =>
      simp only [Functor.map, Except.map, pure, Except.pure, CgState.scale,
        map_mul_replicate_zero, vectorDot_map_mul]

section Steps

variable [IsStrictOrderedRing K] {c : Exact K} (hc : c.val ≠ 0)
include hc

/-- An update of the scaled state checks the same signs, takes the same step size and gives the
scaled state, or fails alike. -/
theorem update_scale (s : CgState (Exact K)) (ap : Array (Exact K)) :
    (q.scaled c).update (s.scale c) (ap.map (c * ·)) =
      Option.map (CgState.scale c) <$> q.update s ap := by
  have hpAp : vectorDot (s.scale c).p (ap.map (c * ·)) = c * c * vectorDot s.p ap :=
    vectorDot_map_mul c s.p ap
  have hsign₁ := mul_self_mul_le_zero_iff hc (vectorDot s.p ap)
  have hsign₂ := mul_self_mul_le_zero_iff hc s.zTr
  rcases q.update_cases s ap with ⟨g₁, hu⟩ | ⟨g₁, g₂, hu⟩ | ⟨g₁, g₂, hu⟩
  · -- `pᵀ A p ≤ 0`: both runs stop at the first check
    rcases (q.scaled c).update_cases (s.scale c) (ap.map (c * ·)) with
      ⟨-, hu'⟩ | ⟨h₁, -⟩ | ⟨h₁, -⟩
    · rw [hu, hu']
      rfl
    all_goals rw [hpAp] at h₁; exact absurd (hsign₁.2 g₁) h₁
  · -- `zᵀ r ≤ 0`: both runs stop at the second check
    rcases (q.scaled c).update_cases (s.scale c) (ap.map (c * ·)) with
      ⟨h₁, -⟩ | ⟨-, -, hu'⟩ | ⟨-, h₂, -⟩
    · rw [hpAp] at h₁
      exact absurd (hsign₁.1 h₁) g₁
    · rw [hu, hu']
      rfl
    · exact absurd (hsign₂.2 g₂) h₂
  · rcases (q.scaled c).update_cases (s.scale c) (ap.map (c * ·)) with
      ⟨h₁, -⟩ | ⟨-, h₂, -⟩ | ⟨-, -, hu'⟩
    · rw [hpAp] at h₁
      exact absurd (hsign₁.1 h₁) g₁
    · exact absurd (hsign₂.1 h₂) g₂
    -- the step size is the unscaled one, and so is `β` once `z` is known
    rw [hu, hu']
    simp only [CgState.scale]
    rw [vectorDot_map_mul c s.p ap, mul_self_mul_div hc,
      zipWith_map_mul c (f := fun ri api => ri - s.zTr / vectorDot s.p ap * api)
        (fun a b => Exact.ext (by simp only [Exact.val_sub, Exact.val_mul]; ring)),
      precondition_map_mul q c _ (y := s.z) (Array.size_map ..)]
    cases q.precondition (s.iterations + 1) s.z
        (s.r.zipWith (fun ri api => ri - s.zTr / vectorDot s.p ap * api) ap) with
    | error f => rfl
    | ok z =>
      simp only [Functor.map, Except.map, Option.map_some, CgState.scale]
      rw [vectorDot_map_mul, mul_self_mul_div hc,
        zipWith_map_mul c (fun a b => Exact.ext (by simp only [Exact.val_add, Exact.val_mul]; ring)),
        zipWith_map_mul c (fun a b => Exact.ext (by simp only [Exact.val_add, Exact.val_mul]; ring))]

/-- A step of the scaled run does what the step of the unscaled run does: the stopping test
`|c| ‖r‖ ≤ tol |c| ‖b‖` is the unscaled one, the bound of updates reads the same count, and the
operator is linear. -/
theorem step_scale (s : CgState (Exact K)) :
    (q.scaled c).step (s.scale c) = Option.map (CgState.scale c) <$> q.step s := by
  have hconv : vectorNorm (s.scale c).r ≤ (q.scaled c).tol * (q.scaled c).bNorm ↔
      vectorNorm s.r ≤ q.tol * q.bNorm := by
    show vectorNorm (s.r.map (c * ·)) ≤ q.tol * (RealScalar.abs c * q.bNorm) ↔ _
    rw [vectorNorm_map_mul hc]
    simp only [Exact.le_iff, Exact.val_mul, Exact.val_abs]
    rw [mul_left_comm, mul_le_mul_iff_of_pos_left (abs_pos.2 hc)]
  by_cases h : vectorNorm s.r ≤ q.tol * q.bNorm
  · simp only [step, if_pos h, if_pos (hconv.2 h)]
    rfl
  -- past the stopping test, the product `A p` and the update commute with scaling
  have htail : (Failure.lift ((q.scaled c).operator.apply (s.scale c).ap (s.scale c).p) >>=
      (q.scaled c).update (s.scale c)) =
      Option.map (CgState.scale c) <$> (Failure.lift (q.operator.apply s.ap s.p) >>= q.update s) := by
    show Failure.lift (q.operator.apply (s.ap.map (c * ·)) (s.p.map (c * ·))) >>= _ = _
    rw [SystemOperator.apply_map_mul c q.operator (Array.size_map ..) s.p]
    cases q.operator.apply s.ap s.p with
    | error v => rfl
    | ok ap => exact update_scale q hc s ap
  simp only [step, if_neg h, if_neg (mt hconv.1 h)]
  rw [show (q.scaled c).maxIter = q.maxIter from rfl,
    show (CgState.scale c s).iterations = s.iterations from rfl]
  cases q.maxIter with
  | none => exact htail
  | some m =>
    by_cases hle : m ≤ s.iterations
    · simp only [if_pos hle]
      rfl
    · simp only [if_neg hle]
      exact htail

/-- A run of the scaled problem from the scaled state is the scaled run. -/
theorem iterate_scale : ∀ (fuel : Nat) (s : CgState (Exact K)),
    (q.scaled c).iterate fuel (s.scale c) = CgState.scale c <$> q.iterate fuel s
  | 0, s => rfl
  | fuel + 1, s => by
    simp only [iterate]
    rw [step_scale q hc s]
    cases q.step s with
    | error e => rfl
    | ok o =>
      cases o with
      | none => rfl
      | some s' => exact iterate_scale fuel s'

end Steps

end CgProblem

section Solve

variable [IsStrictOrderedRing K] {c : Exact K}

/-- The solve on `c b` from `c x0` is the solve on `b` from `x0`, its solution times `c`: the
right-hand side norms are zero together, and the runs correspond state by state. -/
theorem conjugateGradient_scale (hc : c.val ≠ 0) (op : SystemOperator (Exact K))
    (pc : Preconditioner (Exact K)) (tol : Exact K) (maxIter : Option Nat) (fuel : Nat)
    (b x0 : Array (Exact K)) :
    conjugateGradient op pc tol maxIter fuel (b.map (c * ·)) (x0.map (c * ·)) =
      Prod.map (Array.map (c * ·)) id <$> conjugateGradient op pc tol maxIter fuel b x0 := by
  have hzero : Scalar.isZero (RealScalar.abs c * vectorNorm b) = Scalar.isZero (vectorNorm b) := by
    simp [hc]
  simp only [conjugateGradient, Array.size_map, vectorNorm_map_mul hc, hzero]
  -- the problem of the scaled solve is the scaled problem
  set q : CgProblem (Exact K) := ⟨op, pc, vectorNorm b, tol, maxIter⟩
  rw [show (⟨op, pc, RealScalar.abs c * vectorNorm b, tol, maxIter⟩ : CgProblem (Exact K)) =
    q.scaled c from rfl]
  cases Violation.requireEq b.size x0.size "" with
  | error v => rfl
  | ok u =>
    simp only [Failure.lift, Except.mapError, bind, Except.bind]
    by_cases hz : Scalar.isZero (vectorNorm b) = true
    · simp only [hz, if_true, pure, Except.pure, Functor.map, Except.map, Prod.map, id,
        map_mul_replicate_zero]
    · simp only [hz, Bool.false_eq_true, if_false]
      rw [q.start_scale c b x0]
      cases q.start b x0 with
      | error e => rfl
      | ok s₀ =>
        simp only [Functor.map, Except.map]
        rw [q.iterate_scale hc]
        cases q.iterate ((Option.map (fun x => x + 1) maxIter).getD fuel) s₀ with
        | error e => rfl
        | ok t => rfl

/-- Conjugate gradients in exact arithmetic are homogeneous in the right-hand side: for every
operator, every preconditioner (the identity, a Jacobi preconditioner or a matrix), every
tolerance, bound of updates and fuel, and every `c ≠ 0`, the solve from the zero guess on `c b`
returns what the solve on `b` returns, with the solution times `c` and the same number of
updates, and fails exactly when the solve on `b` fails, with the same error and count. -/
theorem conjugateGradient_homogeneous (op : SystemOperator (Exact K))
    (pc : Preconditioner (Exact K)) (tol : Exact K) (maxIter : Option Nat) (fuel : Nat)
    (b : Array (Exact K)) (c : Exact K) (hc : c.val ≠ 0) :
    conjugateGradient op pc tol maxIter fuel (b.map (c * ·)) (Array.replicate b.size Scalar.zero) =
      Prod.map (Array.map (c * ·)) id <$>
        conjugateGradient op pc tol maxIter fuel b (Array.replicate b.size Scalar.zero) := by
  have h := conjugateGradient_scale hc op pc tol maxIter fuel b (Array.replicate b.size Scalar.zero)
  rwa [map_mul_replicate_zero] at h

/-- The solve on the second-difference matrix `[[2, -1], [-1, 2]]` with its Jacobi
preconditioner, for `b = (1, 1)` and `3 b`. -/
theorem conjugateGradient_homogeneous_on_laplacian :
    (Exact.mk (3 : ℚ)).val ≠ 0 ∧
      conjugateGradient (.dense ⟨2, 2, #[Exact.mk 2, Exact.mk (-1), Exact.mk (-1), Exact.mk 2]⟩)
          (.jacobi #[Exact.mk (1 / 2), Exact.mk (1 / 2)]) (Exact.mk (1 / 1000)) (some 5) 0
          (#[Exact.mk (1 : ℚ), Exact.mk 1].map (Exact.mk 3 * ·)) (Array.replicate 2 Scalar.zero) =
        Prod.map (Array.map (Exact.mk 3 * ·)) id <$>
          conjugateGradient (.dense ⟨2, 2, #[Exact.mk 2, Exact.mk (-1), Exact.mk (-1), Exact.mk 2]⟩)
            (.jacobi #[Exact.mk (1 / 2), Exact.mk (1 / 2)]) (Exact.mk (1 / 1000)) (some 5) 0
            #[Exact.mk 1, Exact.mk 1] (Array.replicate 2 Scalar.zero) :=
  ⟨by norm_num, conjugateGradient_homogeneous _ _ _ _ _ _ _ (by norm_num)⟩

end Solve

end MixedFem
