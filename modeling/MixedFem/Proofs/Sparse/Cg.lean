import MixedFem.Proofs.Sparse.Operator

/-!
# The bookkeeping of conjugate gradients

A step of `CgProblem` tests the residual and the bound on updates, forms `A p` and then updates.
`step_cases` and `update_cases` list everything a step can do; the rest reads them.

* `update_eq_ok`, `update_eq_error`, `step_eq_some`, `step_eq_error` : what a step that returns
  or fails has checked; `step_divisors` : a step divides only by positive numbers;
* `CgProblem.Reaches q s₀ k t` : `t` is reached from `s₀` by `k` steps that each update `x`;
  `iterate_eq_ok`, `iterate_eq_error` : a run of `iterate` ends at such a state;
* `Reaches.iterations`, `Reaches.le_maxIter` : the count of updates is the count of steps, and
  stays within the bound;
* `Residual q b n s` : the residual of the recurrence is `b - A x`, in exact arithmetic; it holds
  at the start (`start_eq_ok`) and each update keeps it (`residual_step`);
* `heldIterate_reached`, `solveWithGuess_eq_failure` : a solve that reports a failure leaves the
  guess, or the iterate of a reached state, possibly moved by `α p`;
* `conjugateGradient_bookkeeping` : no division by a number that is not positive, the residual
  `b - A x` at every test, the count of updates within the bound, a converged result within the
  tolerance, and a bound reached only at its own count.
-/

namespace MixedFem

namespace CgProblem

section Steps

variable {ρ : Type} [RealScalar ρ] (q : CgProblem ρ)

/-- An update divides by `pᵀ A p` and `zᵀ r` only once both are known to be positive. -/
theorem update_cases (s : CgState ρ) (ap : Array ρ) :
    (vectorDot s.p ap ≤ Scalar.zero ∧
      q.update s ap = .error (.error ⟨s.iterations, .indefiniteOperator⟩)) ∨
    (¬ vectorDot s.p ap ≤ Scalar.zero ∧ s.zTr ≤ Scalar.zero ∧
      q.update s ap = .error (.error ⟨s.iterations, .indefinitePreconditioner⟩)) ∨
    (¬ vectorDot s.p ap ≤ Scalar.zero ∧ ¬ s.zTr ≤ Scalar.zero ∧
      q.update s ap = (fun z => some ⟨s.x.zipWith (fun xi pi => xi + s.zTr / vectorDot s.p ap * pi) s.p,
          s.r.zipWith (fun ri api => ri - s.zTr / vectorDot s.p ap * api) ap, z,
          z.zipWith (fun zi pi => zi + vectorDot z (s.r.zipWith (fun ri api =>
            ri - s.zTr / vectorDot s.p ap * api) ap) / s.zTr * pi) s.p, ap,
          vectorDot z (s.r.zipWith (fun ri api => ri - s.zTr / vectorDot s.p ap * api) ap),
          s.iterations + 1⟩) <$> q.precondition (s.iterations + 1) s.z
            (s.r.zipWith (fun ri api => ri - s.zTr / vectorDot s.p ap * api) ap)) := by
  by_cases hpAp : vectorDot s.p ap ≤ Scalar.zero
  · exact Or.inl ⟨hpAp, by simp only [update, if_pos hpAp]; rfl⟩
  by_cases hzTr : s.zTr ≤ Scalar.zero
  · exact Or.inr (Or.inl ⟨hpAp, hzTr, by simp only [update, if_neg hpAp, if_pos hzTr]; rfl⟩)
  exact Or.inr (Or.inr ⟨hpAp, hzTr, by simp only [update, if_neg hpAp, if_neg hzTr]; rfl⟩)

/-- The preconditioner fails only with a broken precondition or its own error. -/
theorem precondition_eq_error {it : Nat} {y r : Array ρ} {e : SolveError}
    (h : q.precondition it y r = .error (.error e)) :
    ∃ msg, e = ⟨it, .preconditionerError msg⟩ := by
  simp only [precondition] at h
  cases hp : q.preconditioner.apply y r with
  | error f =>
    rw [hp] at h
    cases f with
    | violation v => cases h
    | error msg => cases h; exact ⟨msg, rfl⟩
  | ok z => rw [hp] at h; cases h

/-- An update that returns gives a state: it has passed both checks, and moves `x` by `α p` and
`r` by `α A p`, with `α = zᵀ r / pᵀ A p`. -/
theorem update_eq_ok {s : CgState ρ} {ap : Array ρ} {o : Option (CgState ρ)}
    (h : q.update s ap = .ok o) : ∃ s', o = some s' ∧
      ¬ vectorDot s.p ap ≤ Scalar.zero ∧ ¬ s.zTr ≤ Scalar.zero ∧
      s'.x = s.x.zipWith (fun xi pi => xi + s.zTr / vectorDot s.p ap * pi) s.p ∧
      s'.r = s.r.zipWith (fun ri api => ri - s.zTr / vectorDot s.p ap * api) ap ∧
      s'.iterations = s.iterations + 1 := by
  rcases q.update_cases s ap with ⟨-, hu⟩ | ⟨-, -, hu⟩ | ⟨hpAp, hzTr, hu⟩
  · rw [hu] at h; cases h
  · rw [hu] at h; cases h
  rw [hu] at h
  cases hz : q.precondition (s.iterations + 1) s.z
      (s.r.zipWith (fun ri api => ri - s.zTr / vectorDot s.p ap * api) ap) with
  | error f => rw [hz] at h; cases h
  | ok z =>
    rw [hz] at h
    cases h
    exact ⟨_, rfl, hpAp, hzTr, rfl, rfl, rfl⟩

/-- An update fails at one of its checks, before any division, or in the preconditioner after
both, with the new count. -/
theorem update_eq_error {s : CgState ρ} {ap : Array ρ} {e : SolveError}
    (h : q.update s ap = .error (.error e)) :
    e = ⟨s.iterations, .indefiniteOperator⟩ ∨ e = ⟨s.iterations, .indefinitePreconditioner⟩ ∨
      (¬ vectorDot s.p ap ≤ Scalar.zero ∧ ¬ s.zTr ≤ Scalar.zero ∧
        ∃ msg, e = ⟨s.iterations + 1, .preconditionerError msg⟩) := by
  rcases q.update_cases s ap with ⟨-, hu⟩ | ⟨-, -, hu⟩ | ⟨hpAp, hzTr, hu⟩
  · rw [hu] at h; cases h; exact Or.inl rfl
  · rw [hu] at h; cases h; exact Or.inr (Or.inl rfl)
  rw [hu] at h
  cases hz : q.precondition (s.iterations + 1) s.z
      (s.r.zipWith (fun ri api => ri - s.zTr / vectorDot s.p ap * api) ap) with
  | error f =>
    rw [hz] at h
    cases h
    exact Or.inr (Or.inr ⟨hpAp, hzTr, q.precondition_eq_error hz⟩)
  | ok z => rw [hz] at h; cases h

/-- A step stops on a small residual or on the bound of updates, fails on a product of the wrong
size, or updates with `A p`. -/
theorem step_cases (s : CgState ρ) :
    (vectorNorm s.r ≤ q.tol * q.bNorm ∧ q.step s = .ok none) ∨
    (¬ vectorNorm s.r ≤ q.tol * q.bNorm ∧ ∃ m, q.maxIter = some m ∧ m ≤ s.iterations ∧
      q.step s = .error (.error ⟨s.iterations, .maxIterationsReached m⟩)) ∨
    (¬ vectorNorm s.r ≤ q.tol * q.bNorm ∧ (∀ m, q.maxIter = some m → s.iterations < m) ∧
      ∃ v, q.operator.apply s.ap s.p = .error v ∧ q.step s = .error (.violation v)) ∨
    (¬ vectorNorm s.r ≤ q.tol * q.bNorm ∧ (∀ m, q.maxIter = some m → s.iterations < m) ∧
      ∃ ap, q.operator.apply s.ap s.p = .ok ap ∧ q.step s = q.update s ap) := by
  by_cases hconv : vectorNorm s.r ≤ q.tol * q.bNorm
  · exact Or.inl ⟨hconv, by simp only [step, if_pos hconv]; rfl⟩
  by_cases hmax : ∃ m, q.maxIter = some m ∧ m ≤ s.iterations
  · obtain ⟨m, hm, hle⟩ := hmax
    refine Or.inr (Or.inl ⟨hconv, m, hm, hle, ?_⟩)
    simp only [step, if_neg hconv, hm, if_pos hle]
    rfl
  have hlt : ∀ m, q.maxIter = some m → s.iterations < m := fun m hm =>
    Nat.lt_of_not_le fun hle => hmax ⟨m, hm, hle⟩
  have hstep : q.step s = Failure.lift (q.operator.apply s.ap s.p) >>= q.update s := by
    simp only [step, if_neg hconv]
    cases hm : q.maxIter with
    | none => rfl
    | some m => simp only [if_neg (Nat.not_le.2 (hlt m hm))]
  rw [hstep]
  cases hap : q.operator.apply s.ap s.p with
  | error v => exact Or.inr (Or.inr (Or.inl ⟨hconv, hlt, v, rfl, rfl⟩))
  | ok ap => exact Or.inr (Or.inr (Or.inr ⟨hconv, hlt, ap, rfl, rfl⟩))

/-- A step stops without an update only on a small residual. -/
theorem step_eq_none {s : CgState ρ} (h : q.step s = .ok none) :
    vectorNorm s.r ≤ q.tol * q.bNorm := by
  rcases q.step_cases s with ⟨hconv, -⟩ | ⟨-, _, -, -, h'⟩ | ⟨-, -, _, -, h'⟩ | ⟨-, -, ap, -, h'⟩
  · exact hconv
  · rw [h'] at h; cases h
  · rw [h'] at h; cases h
  · rw [h'] at h
    obtain ⟨s', hs', -⟩ := q.update_eq_ok h
    cases hs'

/-- A step that updates was within the bound and has formed `A p`. -/
theorem step_eq_some {s s' : CgState ρ} (h : q.step s = .ok (some s')) :
    (∀ m, q.maxIter = some m → s.iterations < m) ∧
      ∃ ap, q.operator.apply s.ap s.p = .ok ap ∧ q.update s ap = .ok (some s') := by
  rcases q.step_cases s with ⟨-, h'⟩ | ⟨-, _, -, -, h'⟩ | ⟨-, -, _, -, h'⟩ | ⟨-, hlt, ap, hap, h'⟩
  · rw [h'] at h; cases h
  · rw [h'] at h; cases h
  · rw [h'] at h; cases h
  · exact ⟨hlt, ap, hap, h' ▸ h⟩

/-- A step fails with an error at the bound of updates, or within it in the update. -/
theorem step_eq_error {s : CgState ρ} {e : SolveError} (h : q.step s = .error (.error e)) :
    (∃ m, q.maxIter = some m ∧ m ≤ s.iterations ∧ e = ⟨s.iterations, .maxIterationsReached m⟩) ∨
    ((∀ m, q.maxIter = some m → s.iterations < m) ∧
      ∃ ap, q.operator.apply s.ap s.p = .ok ap ∧ q.update s ap = .error (.error e)) := by
  rcases q.step_cases s with ⟨-, h'⟩ | ⟨-, m, hm, hle, h'⟩ | ⟨-, -, _, -, h'⟩ | ⟨-, hlt, ap, hap, h'⟩
  · rw [h'] at h; cases h
  · rw [h'] at h
    cases h
    exact Or.inl ⟨m, hm, hle, rfl⟩
  · rw [h'] at h; cases h
  · exact Or.inr ⟨hlt, ap, hap, h' ▸ h⟩

/-- The steps that divide, those that update and those that fail in the preconditioner after
computing `α`, divide by a positive `pᵀ A p` and a positive previous `zᵀ r`. -/
theorem step_divisors {s : CgState ρ}
    (h : (∃ s', q.step s = .ok (some s')) ∨
      ∃ i msg, q.step s = .error (.error ⟨i, .preconditionerError msg⟩)) :
    ∃ ap, q.operator.apply s.ap s.p = .ok ap ∧ ¬ vectorDot s.p ap ≤ Scalar.zero ∧
      ¬ s.zTr ≤ Scalar.zero := by
  rcases h with ⟨s', hs⟩ | ⟨i, msg, hs⟩
  · obtain ⟨-, ap, hap, hu⟩ := q.step_eq_some hs
    obtain ⟨_, -, hpAp, hzTr, -⟩ := q.update_eq_ok hu
    exact ⟨ap, hap, hpAp, hzTr⟩
  · rcases q.step_eq_error hs with ⟨m, -, -, he⟩ | ⟨-, ap, hap, hu⟩
    · cases he
    · rcases q.update_eq_error hu with he | he | ⟨hpAp, hzTr, -⟩
      · cases he
      · cases he
      · exact ⟨ap, hap, hpAp, hzTr⟩

/-- A step from a count within the bound fails with a count within the bound. -/
theorem step_eq_error_le {s : CgState ρ} {e : SolveError} {m : Nat}
    (h : q.step s = .error (.error e)) (hm : q.maxIter = some m) (hs : s.iterations ≤ m) :
    e.iterations ≤ m := by
  rcases q.step_eq_error h with ⟨m', -, -, rfl⟩ | ⟨hlt, ap, -, hu⟩
  · exact hs
  · have hlt := hlt m hm
    rcases q.update_eq_error hu with rfl | rfl | ⟨-, -, msg, rfl⟩
    · exact hs
    · exact hs
    · exact hlt

/-- A step stops at the bound only when it is the bound that is set and the count reaches it. -/
theorem step_eq_maxIterationsReached {s : CgState ρ} {i m : Nat}
    (h : q.step s = .error (.error ⟨i, .maxIterationsReached m⟩)) :
    q.maxIter = some m ∧ m ≤ s.iterations ∧ i = s.iterations := by
  rcases q.step_eq_error h with ⟨m', hm, hle, he⟩ | ⟨-, ap, -, hu⟩
  · cases he
    exact ⟨hm, hle, rfl⟩
  · rcases q.update_eq_error hu with he | he | ⟨-, -, msg, he⟩ <;> cases he

/-- The state before the first update has a count of zero, and fails only in the
preconditioner. -/
theorem start_eq_error {b x0 : Array ρ} {e : SolveError}
    (h : q.start b x0 = .error (.error e)) : ∃ msg, e = ⟨0, .preconditionerError msg⟩ := by
  cases hax : q.operator.apply (Array.replicate x0.size Scalar.zero) x0 with
  | error v =>
    simp only [start, hax, Failure.lift, Except.mapError, bind, Except.bind] at h
    cases h
  | ok ax =>
    simp only [start, hax, Failure.lift, Except.mapError, bind, Except.bind] at h
    cases hz : q.precondition 0 (Array.replicate x0.size Scalar.zero)
        (b.zipWith (fun bi axi => bi - axi) ax) with
    | error f =>
      rw [hz] at h
      cases h
      exact q.precondition_eq_error hz
    | ok z => rw [hz] at h; cases h

end Steps

section Runs

variable {ρ : Type} [RealScalar ρ] {q : CgProblem ρ}

/-- The states that steps from `s₀` reach, each step updating `x`, with the number of steps. -/
inductive Reaches (q : CgProblem ρ) (s₀ : CgState ρ) : Nat → CgState ρ → Prop
  | start : q.Reaches s₀ 0 s₀
  | next {k : Nat} {s s' : CgState ρ} : q.Reaches s₀ k s → q.step s = .ok (some s') →
      q.Reaches s₀ (k + 1) s'

theorem Reaches.cons {s₀ s₁ t : CgState ρ} {k : Nat} (h₀ : q.step s₀ = .ok (some s₁))
    (h : q.Reaches s₁ k t) : q.Reaches s₀ (k + 1) t := by
  induction h with
  | start => exact .next .start h₀
  | next _ hs ih => exact .next ih hs

/-- A run that returns ends at a reached state where the residual is small enough. -/
theorem iterate_eq_ok : ∀ {fuel : Nat} {s₀ t : CgState ρ}, q.iterate fuel s₀ = .ok t →
    ∃ k, k < fuel ∧ q.Reaches s₀ k t ∧ q.step t = .ok none
  | 0, _, _, h => by cases h
  | fuel + 1, s₀, t, h => by
    simp only [iterate] at h
    cases hs : q.step s₀ with
    | error e => rw [hs] at h; cases h
    | ok o =>
      rw [hs] at h
      cases o with
      | none =>
        cases h
        exact ⟨0, Nat.succ_pos _, .start, hs⟩
      | some s₁ =>
        obtain ⟨k, hk, hr, ht⟩ := iterate_eq_ok h
        exact ⟨k + 1, by omega, hr.cons hs, ht⟩

/-- A run that fails stops at a reached state, by the error of its step or by running out of
fuel. -/
theorem iterate_eq_error : ∀ {fuel : Nat} {s₀ : CgState ρ} {e : Failure SolveError},
    q.iterate fuel s₀ = .error e → ∃ k t, q.Reaches s₀ k t ∧
      ((k < fuel ∧ q.step t = .error e) ∨
        (k = fuel ∧ e = .error ⟨t.iterations, .maxIterationsReached t.iterations⟩))
  | 0, s₀, e, h => by
    cases h
    exact ⟨0, s₀, .start, Or.inr ⟨rfl, rfl⟩⟩
  | fuel + 1, s₀, e, h => by
    simp only [iterate] at h
    cases hs : q.step s₀ with
    | error e' =>
      rw [hs] at h
      cases h
      exact ⟨0, s₀, .start, Or.inl ⟨Nat.succ_pos _, hs⟩⟩
    | ok o =>
      rw [hs] at h
      cases o with
      | none => cases h
      | some s₁ =>
        obtain ⟨k, t, hr, hstop⟩ := iterate_eq_error h
        refine ⟨k + 1, t, hr.cons hs, ?_⟩
        rcases hstop with ⟨hk, ht⟩ | ⟨hk, he⟩
        · exact Or.inl ⟨by omega, ht⟩
        · exact Or.inr ⟨by omega, he⟩

/-- After a failed step the caller's vector holds the iterate of the state, moved by `α p` when
the preconditioning of the update failed. -/
theorem heldAfter_cases (s : CgState ρ) (e : Failure SolveError) :
    q.heldAfter s e = s.x ∨ ∃ alpha, q.heldAfter s e = s.movedIterate alpha := by
  unfold heldAfter
  split
  · split
    · exact Or.inr ⟨_, rfl⟩
    · exact Or.inl rfl
  · exact Or.inl rfl

/-- Wherever a run stops, the caller's vector holds the iterate of a reached state, or that
iterate moved by `α p`. -/
theorem heldIterate_reached : ∀ (fuel : Nat) (s₀ : CgState ρ), ∃ k t, q.Reaches s₀ k t ∧
    (q.heldIterate fuel s₀ = t.x ∨ ∃ alpha, q.heldIterate fuel s₀ = t.movedIterate alpha)
  | 0, s₀ => ⟨0, s₀, .start, Or.inl rfl⟩
  | fuel + 1, s₀ => by
    cases hs : q.step s₀ with
    | error e =>
      refine ⟨0, s₀, .start, ?_⟩
      simp only [heldIterate, hs]
      exact q.heldAfter_cases s₀ e
    | ok o =>
      cases o with
      | none =>
        refine ⟨0, s₀, .start, Or.inl ?_⟩
        simp only [heldIterate, hs]
      | some s₁ =>
        obtain ⟨k, t, hr, ht⟩ := heldIterate_reached fuel s₁
        refine ⟨k + 1, t, hr.cons hs, ?_⟩
        simp only [heldIterate, hs]
        exact ht

/-- Every step of a run adds one update to the count. -/
theorem Reaches.iterations {s₀ t : CgState ρ} {k : Nat} (h : q.Reaches s₀ k t) :
    t.iterations = s₀.iterations + k := by
  induction h with
  | start => rfl
  | next _ hs ih =>
    obtain ⟨-, ap, -, hu⟩ := q.step_eq_some hs
    obtain ⟨_, ⟨⟩, -, -, -, -, hit⟩ := q.update_eq_ok hu
    rw [hit, ih, Nat.add_assoc]

/-- From a count of zero, a run makes at most `maxIter` updates. -/
theorem Reaches.le_maxIter {s₀ t : CgState ρ} {k m : Nat} (h : q.Reaches s₀ k t)
    (h₀ : s₀.iterations = 0) (hm : q.maxIter = some m) : k ≤ m := by
  induction h with
  | start => exact Nat.zero_le m
  | next hr hs _ =>
    have hlt := (q.step_eq_some hs).1 m hm
    rw [hr.iterations, h₀, Nat.zero_add] at hlt
    exact hlt

/-- A run from a count of zero fails with a count within the bound, and stops at the bound only
at its own count, whatever its fuel. -/
theorem iterate_eq_error_iterations {fuel : Nat} {s₀ : CgState ρ} {e : SolveError}
    (h₀ : s₀.iterations = 0) (h : q.iterate fuel s₀ = .error (.error e)) :
    (∀ m, q.maxIter = some m → e.iterations ≤ m) ∧
      ∀ m, e.kind = .maxIterationsReached m → e.iterations = m := by
  obtain ⟨k, t, hr, hstop⟩ := iterate_eq_error h
  have hit : t.iterations = k := by rw [hr.iterations, h₀, Nat.zero_add]
  have hle : ∀ m, q.maxIter = some m → t.iterations ≤ m := fun m hm => by
    rw [hit]
    exact hr.le_maxIter h₀ hm
  rcases hstop with ⟨-, ht⟩ | ⟨-, he⟩
  · -- a step failed, from a count within the bound
    refine ⟨fun m hm => q.step_eq_error_le ht hm (hle m hm), fun m hkind => ?_⟩
    obtain ⟨i, kind⟩ := e
    cases hkind
    obtain ⟨hm, hmle, rfl⟩ := q.step_eq_maxIterationsReached ht
    exact Nat.le_antisymm (hle m hm) hmle
  · -- the fuel ran out, and the error carries the count
    cases he
    exact ⟨hle, fun m hkind => SolveErrorKind.maxIterationsReached.inj hkind⟩

end Runs

section Solve

variable {ρ : Type} [RealScalar ρ] {op : SystemOperator ρ} {pc : Preconditioner ρ} {tol : ρ}
  {maxIter : Option Nat} {fuel : Nat} {b x0 : Array ρ}

/-- A solve that returns gives the zero vector for a right-hand side of zero norm, and otherwise
the iterate at which a run from the state before the first update stops. -/
theorem conjugateGradient_eq_ok (hb : b.size = x0.size) {x : Array ρ} {it : Nat}
    (h : conjugateGradient op pc tol maxIter fuel b x0 = .ok (x, it)) :
    (Scalar.isZero (vectorNorm b) = true ∧ x = Array.replicate x0.size Scalar.zero ∧ it = 0) ∨
    (Scalar.isZero (vectorNorm b) = false ∧ ∃ s₀ t,
      (⟨op, pc, vectorNorm b, tol, maxIter⟩ : CgProblem ρ).start b x0 = .ok s₀ ∧
      (⟨op, pc, vectorNorm b, tol, maxIter⟩ : CgProblem ρ).iterate
        (maxIter.map (· + 1) |>.getD fuel) s₀ = .ok t ∧ t.x = x ∧ t.iterations = it) := by
  simp only [conjugateGradient, Violation.requireEq, if_pos hb, Failure.lift, Except.mapError,
    bind, Except.bind] at h
  cases hz : Scalar.isZero (vectorNorm b) with
  | true =>
    simp only [hz, if_true] at h
    cases h
    exact Or.inl ⟨rfl, rfl, rfl⟩
  | false =>
    simp only [hz, Bool.false_eq_true, if_false] at h
    refine Or.inr ⟨rfl, ?_⟩
    cases hs : (⟨op, pc, vectorNorm b, tol, maxIter⟩ : CgProblem ρ).start b x0 with
    | error f => rw [hs] at h; cases h
    | ok s₀ =>
      simp only [hs] at h
      cases ht : (⟨op, pc, vectorNorm b, tol, maxIter⟩ : CgProblem ρ).iterate
          (maxIter.map (· + 1) |>.getD fuel) s₀ with
      | error f => rw [ht] at h; cases h
      | ok t =>
        rw [ht] at h
        cases h
        exact ⟨s₀, t, rfl, ht, rfl, rfl⟩

/-- A solve fails only past a right-hand side of nonzero norm: before the first update, or in
the run from there. -/
theorem conjugateGradient_eq_error (hb : b.size = x0.size) {e : Failure SolveError}
    (h : conjugateGradient op pc tol maxIter fuel b x0 = .error e) :
    (⟨op, pc, vectorNorm b, tol, maxIter⟩ : CgProblem ρ).start b x0 = .error e ∨ ∃ s₀,
      (⟨op, pc, vectorNorm b, tol, maxIter⟩ : CgProblem ρ).start b x0 = .ok s₀ ∧
      (⟨op, pc, vectorNorm b, tol, maxIter⟩ : CgProblem ρ).iterate
        (maxIter.map (· + 1) |>.getD fuel) s₀ = .error e := by
  simp only [conjugateGradient, Violation.requireEq, if_pos hb, Failure.lift, Except.mapError,
    bind, Except.bind] at h
  cases hz : Scalar.isZero (vectorNorm b) with
  | true =>
    simp only [hz, if_true] at h
    cases h
  | false =>
    simp only [hz, Bool.false_eq_true, if_false] at h
    cases hs : (⟨op, pc, vectorNorm b, tol, maxIter⟩ : CgProblem ρ).start b x0 with
    | error f =>
      rw [hs] at h
      cases h
      exact Or.inl rfl
    | ok s₀ =>
      simp only [hs] at h
      cases ht : (⟨op, pc, vectorNorm b, tol, maxIter⟩ : CgProblem ρ).iterate
          (maxIter.map (· + 1) |>.getD fuel) s₀ with
      | error f =>
        rw [ht] at h
        cases h
        exact Or.inr ⟨s₀, rfl, ht⟩
      | ok t => rw [ht] at h; cases h

/-- A solve that reports a failure leaves in the caller's vector the guess, when there is no state
to start from, or the iterate of a state its run reaches, possibly moved by `α p`. -/
theorem solveWithGuess_eq_failure {e : SolveError} {x : Array ρ}
    (h : solveWithGuess op pc tol maxIter fuel b x0 = .ok (.error e, x)) :
    x = x0 ∨ ∃ s₀ k t, (⟨op, pc, vectorNorm b, tol, maxIter⟩ : CgProblem ρ).start b x0 = .ok s₀ ∧
      (⟨op, pc, vectorNorm b, tol, maxIter⟩ : CgProblem ρ).Reaches s₀ k t ∧
      (x = t.x ∨ ∃ alpha, x = t.movedIterate alpha) := by
  unfold solveWithGuess at h
  cases hcg : conjugateGradient op pc tol maxIter fuel b x0 with
  | ok res => rw [hcg] at h; cases h
  | error f =>
    rw [hcg] at h
    cases f with
    | violation v => cases h
    | error e' =>
      cases hs : (⟨op, pc, vectorNorm b, tol, maxIter⟩ : CgProblem ρ).start b x0 with
      | error _ =>
        simp only [hs] at h
        cases h
        exact Or.inl rfl
      | ok s₀ =>
        simp only [hs] at h
        cases h
        obtain ⟨k, t, hr, hx⟩ := heldIterate_reached (maxIter.map (· + 1) |>.getD fuel) s₀
        exact Or.inr ⟨s₀, k, t, rfl, hr, hx⟩

end Solve

section Exact

variable {K : Type} [Field K] [LinearOrder K] {q : CgProblem (Exact K)} {b : Array (Exact K)}
  {n : Nat}

/-- The iterate has length `n` and the residual of the recurrence is `b - A x`. -/
def Residual (q : CgProblem (Exact K)) (b : Array (Exact K)) (n : Nat) (s : CgState (Exact K)) :
    Prop :=
  s.x.size = n ∧ s.r = b.zipWith (fun bi axi => bi - axi) (q.operator.product s.x)

/-- An update keeps the residual `b - A x`: by linearity, moving `r` by `α A p` is moving `x` by
`α p`. -/
theorem residual_step (hop : q.operator.Square n) (hb : b.size = n) {s s' : CgState (Exact K)}
    (h : q.Residual b n s) (hs : q.step s = .ok (some s')) : q.Residual b n s' := by
  obtain ⟨-, ap, hap, hu⟩ := q.step_eq_some hs
  obtain ⟨_, ⟨⟩, -, -, hx, hr, -⟩ := q.update_eq_ok hu
  obtain ⟨-, hp, rfl⟩ := (SystemOperator.apply_eq_ok_iff hop _ _ _).1 hap
  obtain ⟨hxn, hres⟩ := h
  have hprod : ∀ y, (q.operator.product y).size = n := SystemOperator.size_product hop
  have hbA : ∀ y, b.size = (q.operator.product y).size := fun y => by rw [hb, hprod]
  have hrA : (b.zipWith (fun bi axi => bi - axi) (q.operator.product s.x)).size =
      (q.operator.product s.p).size := by simp [hb, hprod]
  refine ⟨by simp [hx, hxn, hp], Exact.array_ext (by simp [hr, hres, hb, hprod]) fun i _ => ?_⟩
  rw [hr, hres, Exact.val_zipWith_sub_mul hrA, Exact.val_zipWith_sub (hbA _),
    Exact.val_zipWith_sub (hbA _), hx, SystemOperator.product_add_smul hop hxn hp]
  ring

/-- Every state a run reaches from one with residual `b - A x` has residual `b - A x`. -/
theorem Reaches.residual (hop : q.operator.Square n) (hb : b.size = n)
    {s₀ t : CgState (Exact K)} {k : Nat} (h : q.Reaches s₀ k t) (h₀ : q.Residual b n s₀) :
    q.Residual b n t := by
  induction h with
  | start => exact h₀
  | next _ hs ih => exact residual_step hop hb ih hs

/-- The state before the first update holds the guess, a count of zero, and its residual. -/
theorem start_eq_ok (hop : q.operator.Square n) {x0 : Array (Exact K)} (hx : x0.size = n)
    {s₀ : CgState (Exact K)} (h : q.start b x0 = .ok s₀) :
    s₀.x = x0 ∧ s₀.iterations = 0 ∧ q.Residual b n s₀ := by
  have hax : q.operator.apply (Array.replicate x0.size Scalar.zero) x0 =
      .ok (q.operator.product x0) :=
    (SystemOperator.apply_eq_ok_iff hop _ _ _).2 ⟨by simp [hx], hx, rfl⟩
  simp only [start, hax, Failure.lift, Except.mapError, bind, Except.bind] at h
  cases hz : q.precondition 0 (Array.replicate x0.size Scalar.zero)
      (b.zipWith (fun bi axi => bi - axi) (q.operator.product x0)) with
  | error f => rw [hz] at h; cases h
  | ok z =>
    rw [hz] at h
    cases h
    exact ⟨rfl, rfl, hx, rfl⟩

/-- Conjugate gradients in exact arithmetic, for an operator of the system's size and any
preconditioner, tolerance, bound and fuel:
* a step divides only past its checks: when it updates `x`, or fails in the preconditioner after
  computing `α`, both `pᵀ A p` and the `zᵀ r` it divides by are positive;
* at each state the run reaches, where the stopping test is evaluated, the count is the number of
  updates and within the bound, and the residual of the recurrence is `b - A x`;
* a result is zero for a zero right-hand side and otherwise the iterate of such a state, its
  count is within the bound, and `‖b - A x‖ ≤ tol ‖b‖`;
* a failure has a count within the bound, and one at the bound `m` has the count `m`. -/
theorem conjugateGradient_bookkeeping (op : SystemOperator (Exact K))
    (pc : Preconditioner (Exact K)) (tol : Exact K) (maxIter : Option Nat) (fuel : Nat)
    (hop : op.Square n) (b x0 : Array (Exact K)) (hb : b.size = n) (hx : x0.size = n) :
    let q : CgProblem (Exact K) := ⟨op, pc, vectorNorm b, tol, maxIter⟩
    (∀ s, ((∃ s', q.step s = .ok (some s')) ∨
        ∃ i msg, q.step s = .error (.error ⟨i, .preconditionerError msg⟩)) →
      ∃ ap, op.apply s.ap s.p = .ok ap ∧ 0 < (vectorDot s.p ap).val ∧ 0 < s.zTr.val) ∧
    (∀ s₀, q.start b x0 = .ok s₀ → ∀ k t, q.Reaches s₀ k t →
      t.iterations = k ∧ (∀ m, maxIter = some m → k ≤ m) ∧ t.x.size = n ∧
        t.r = b.zipWith (fun bi axi => bi - axi) (op.product t.x)) ∧
    (∀ x it, conjugateGradient op pc tol maxIter fuel b x0 = .ok (x, it) →
      (b = Array.replicate n Scalar.zero → x = Array.replicate n Scalar.zero ∧ it = 0) ∧
      (Scalar.isZero (vectorNorm b) = false →
        ∃ s₀ t, q.start b x0 = .ok s₀ ∧ q.Reaches s₀ it t ∧ t.x = x) ∧
      (∀ m, maxIter = some m → it ≤ m) ∧
      (vectorNorm (b.zipWith (fun bi axi => bi - axi) (op.product x))).val ≤
        tol.val * (vectorNorm b).val) ∧
    ∀ e, conjugateGradient op pc tol maxIter fuel b x0 = .error (.error e) →
      (∀ m, maxIter = some m → e.iterations ≤ m) ∧
        ∀ m, e.kind = .maxIterationsReached m → e.iterations = m := by
  intro q
  refine ⟨fun s hs => ?_, fun s₀ hs₀ k t hr => ?_, fun x it h => ?_, fun e h => ?_⟩
  · -- the divisions
    obtain ⟨ap, hap, hpAp, hzTr⟩ := q.step_divisors hs
    exact ⟨ap, hap, lt_of_not_ge hpAp, lt_of_not_ge hzTr⟩
  · -- the run invariant
    obtain ⟨-, h₀, hres₀⟩ := start_eq_ok hop hx hs₀
    exact ⟨by rw [hr.iterations, h₀, Nat.zero_add], fun m hm => hr.le_maxIter h₀ hm,
      hr.residual hop hb hres₀⟩
  · rcases conjugateGradient_eq_ok (hb.trans hx.symm) h with
      ⟨hz, rfl, rfl⟩ | ⟨hz, s₀, t, hs₀, ht, rfl, rfl⟩
    · -- a right-hand side of zero norm gives the zero vector, whose residual is `b`
      have hnorm : (vectorNorm b).val = 0 := by simpa using hz
      refine ⟨fun _ => ⟨by rw [hx], rfl⟩, fun hnz => absurd hz (by rw [hnz]; decide),
        fun m _ => Nat.zero_le m, ?_⟩
      rw [SystemOperator.zipWith_sub_product_zero hop hb, hnorm, mul_zero]
    · -- otherwise the run stopped at a reached state, on the stopping test
      obtain ⟨k, -, hr, hstop⟩ := iterate_eq_ok ht
      obtain ⟨-, h₀, hres₀⟩ := start_eq_ok hop hx hs₀
      have hit : t.iterations = k := by rw [hr.iterations, h₀, Nat.zero_add]
      obtain ⟨-, hres⟩ := hr.residual hop hb hres₀
      have hconv := q.step_eq_none hstop
      rw [hres] at hconv
      refine ⟨fun hb0 => ?_, fun _ => ⟨s₀, t, hs₀, hit ▸ hr, rfl⟩,
        fun m hm => hit ▸ hr.le_maxIter h₀ hm, hconv⟩
      rw [hb0] at hz
      simp [vectorNorm_replicate_zero] at hz
  · rcases conjugateGradient_eq_error (hb.trans hx.symm) h with hs | ⟨s₀, hs₀, hrun⟩
    · -- before the first update, only the preconditioner fails, with a count of zero
      obtain ⟨msg, rfl⟩ := q.start_eq_error hs
      exact ⟨fun m _ => Nat.zero_le m, fun m hkind => by cases hkind⟩
    · exact iterate_eq_error_iterations (start_eq_ok hop hx hs₀).2.1 hrun

/-- The operator `diag(2, 3)`. -/
def diagonalOperator : SystemOperator (Exact ℚ) :=
  .dense ⟨2, 2, #[Exact.mk 2, Exact.mk 0, Exact.mk 0, Exact.mk 3]⟩

/-- On `diag(2, 3)` with `b = (3, 4)`, whose norm `5` is rational, so that the run takes CG steps
rather than the exit for a zero right-hand side. -/
theorem conjugateGradient_bookkeeping_on_diagonal :
    (diagonalOperator.Square 2 ∧ (#[Exact.mk 3, Exact.mk 4] : Array (Exact ℚ)).size = 2 ∧
      (Array.replicate 2 (Scalar.zero : Exact ℚ)).size = 2) ∧
    let b : Array (Exact ℚ) := #[Exact.mk 3, Exact.mk 4]
    let x0 := Array.replicate 2 (Scalar.zero : Exact ℚ)
    let q : CgProblem (Exact ℚ) :=
      ⟨diagonalOperator, .jacobi #[Exact.mk (1 / 2), Exact.mk (1 / 3)], vectorNorm b,
        Exact.mk (1 / 1000), some 10⟩
    (∀ s, ((∃ s', q.step s = .ok (some s')) ∨
        ∃ i msg, q.step s = .error (.error ⟨i, .preconditionerError msg⟩)) →
      ∃ ap, diagonalOperator.apply s.ap s.p = .ok ap ∧ 0 < (vectorDot s.p ap).val ∧
        0 < s.zTr.val) ∧
    (∀ s₀, q.start b x0 = .ok s₀ → ∀ k t, q.Reaches s₀ k t →
      t.iterations = k ∧ (∀ m, some 10 = some m → k ≤ m) ∧ t.x.size = 2 ∧
        t.r = b.zipWith (fun bi axi => bi - axi) (diagonalOperator.product t.x)) ∧
    (∀ x it, conjugateGradient diagonalOperator q.preconditioner q.tol (some 10) 0 b x0 =
        .ok (x, it) →
      (b = Array.replicate 2 Scalar.zero → x = Array.replicate 2 Scalar.zero ∧ it = 0) ∧
      (Scalar.isZero (vectorNorm b) = false →
        ∃ s₀ t, q.start b x0 = .ok s₀ ∧ q.Reaches s₀ it t ∧ t.x = x) ∧
      (∀ m, some 10 = some m → it ≤ m) ∧
      (vectorNorm (b.zipWith (fun bi axi => bi - axi) (diagonalOperator.product x))).val ≤
        q.tol.val * (vectorNorm b).val) ∧
    ∀ e, conjugateGradient diagonalOperator q.preconditioner q.tol (some 10) 0 b x0 =
        .error (.error e) →
      (∀ m, some 10 = some m → e.iterations ≤ m) ∧
        ∀ m, e.kind = .maxIterationsReached m → e.iterations = m :=
  ⟨⟨⟨rfl, rfl⟩, rfl, rfl⟩, conjugateGradient_bookkeeping diagonalOperator
    (.jacobi #[Exact.mk (1 / 2), Exact.mk (1 / 3)]) (Exact.mk (1 / 1000)) (some 10) 0 ⟨rfl, rfl⟩
    #[Exact.mk 3, Exact.mk 4] (Array.replicate 2 Scalar.zero) rfl rfl⟩

end Exact

end CgProblem

end MixedFem
