import Mathlib.Data.String.Basic
import MixedFem.Kernel.Registry

/-!
# Runs of a kernel registry

A registry is filled once, by a run of `insert` calls. Each call is answered at once: a form seen
before is refused with `duplicateForm` and the registry is left as it was, a new form is
appended with its kernel. So the registry after any run holds exactly the accepted calls, in
order, and a call is accepted exactly when its form is new to the run: the first kernel given for
a form is the one that is kept.

* `FormId.beq_eq`, `LawfulBEq FormId` : forms are equal when their names are;
* `KernelRegistry.ids`, `insertCall`, `insertRun` : the forms of a registry, one call through a
  mutable reference, and a run of calls with the answer to each;
* `KernelRegistry.accepted` : the calls of a run whose answer was `ok`;
* `KernelRegistry.insertCall_eq` : one call, in closed form (the step lemma);
* `KernelRegistry.insertRun_answers`, `insertRun_kernels` : the answers and the registry after a
  run (the run lemmas);
* `KernelRegistry.contains_iff_get`, `formIds_pairwise_lt` : queries of a registry of distinct
  forms;
* `KernelRegistry.insertRun_laws` : the store semantics of every run from the empty registry.
-/

namespace MixedFem

/-- Two forms compare equal when their names do. -/
theorem FormId.beq_eq (a b : FormId) : (a == b) = (a.name == b.name) := by
  cases a
  cases b
  rfl

instance : LawfulBEq FormId where
  eq_of_beq {a b} h := by
    rw [FormId.beq_eq, beq_iff_eq] at h
    cases a
    cases b
    cases h
    rfl
  rfl {a} := by rw [FormId.beq_eq, beq_self_eq_true]

theorem FormId.name_injective : Function.Injective FormId.name := by
  intro a b h
  cases a
  cases b
  cases h
  rfl

namespace KernelRegistry

variable {ρ : Type}

/-- The forms of a registry, in the order of registration. -/
def ids (r : KernelRegistry ρ) : List FormId := r.kernels.map Prod.fst

/-- The call `insert(id, k)` on a registry held by a mutable reference: its answer, and the
registry after the call. The builder `with_kernel` is the same call taking the registry by value:
when it succeeds it gives the same registry, and when it refuses, with the same answer, the
registry is dropped and the run ends there. -/
def insertCall (r : KernelRegistry ρ) (c : FormId × ElementKernel ρ) :
    Except RegistryError Unit × KernelRegistry ρ :=
  match r.insert c.1 c.2 with
  | .ok r' => (.ok (), r')
  | .error e => (.error e, r)

/-- A run of `insert` calls, each on the registry that the one before left: the answers in order,
and the registry at the end. -/
def insertRun (r : KernelRegistry ρ) :
    List (FormId × ElementKernel ρ) → List (Except RegistryError Unit) × KernelRegistry ρ
  | [] => ([], r)
  | c :: cs => ((r.insertCall c).1 :: ((r.insertCall c).2.insertRun cs).1,
      ((r.insertCall c).2.insertRun cs).2)

/-- The calls of a run whose answer was `ok`, in order. -/
def accepted (calls : List (FormId × ElementKernel ρ))
    (answers : List (Except RegistryError Unit)) : List (FormId × ElementKernel ρ) :=
  ((calls.zip answers).filter fun p => p.2.isOk).map Prod.fst

theorem contains_eq (r : KernelRegistry ρ) (id : FormId) : r.contains id = decide (id ∈ r.ids) := by
  rw [contains, ids, Bool.eq_iff_iff, List.any_eq_true, decide_eq_true_iff, List.mem_map]
  simp only [beq_iff_eq]

/-- One call: a form already present is refused and the registry kept, a new one is appended. -/
theorem insertCall_eq (r : KernelRegistry ρ) (c : FormId × ElementKernel ρ) :
    r.insertCall c = if c.1 ∈ r.ids then (.error (.duplicateForm c.1), r)
      else (.ok (), ⟨r.kernels ++ [c]⟩) := by
  by_cases h : c.1 ∈ r.ids <;> simp [insertCall, insert, contains_eq, h]

/-- After a call the forms are the old ones and the form of the call. -/
theorem mem_ids_insertCall {r : KernelRegistry ρ} {c : FormId × ElementKernel ρ} {x : FormId} :
    x ∈ (r.insertCall c).2.ids ↔ x ∈ r.ids ∨ x = c.1 := by
  rw [insertCall_eq]
  by_cases h : c.1 ∈ r.ids
  · -- a refused form was there already
    rw [if_pos h]
    exact ⟨Or.inl, fun hx => hx.elim (fun hx => hx) fun e => e ▸ h⟩
  · rw [if_neg h]
    simp [ids]

/-- The answer of call `i` of a run is a refusal exactly when its form is among the forms present
at the start or given by an earlier call of the run. -/
theorem insertRun_answers (r : KernelRegistry ρ) (calls : List (FormId × ElementKernel ρ)) :
    (r.insertRun calls).1 = calls.mapIdx fun i c =>
      if c.1 ∈ r.ids ++ (calls.take i).map Prod.fst then .error (.duplicateForm c.1)
      else .ok () := by
  induction calls generalizing r with
  | nil => rfl
  | cons c cs ih =>
    rw [insertRun, ih, List.mapIdx_cons]
    refine congrArg₂ List.cons ?_ ?_
    · rw [insertCall_eq]
      split_ifs with h <;> simp_all
    · -- later calls see the form of this call, whether it was accepted or was there already
      congr 1
      funext i d
      refine if_congr ?_ rfl rfl
      simp only [List.take_succ_cons, List.map_cons, List.mem_append, List.mem_cons,
        mem_ids_insertCall, or_assoc]

/-- The registry after a run holds the kernels it started with, then the accepted calls. -/
theorem insertRun_kernels (r : KernelRegistry ρ) (calls : List (FormId × ElementKernel ρ)) :
    (r.insertRun calls).2.kernels = r.kernels ++ accepted calls (r.insertRun calls).1 := by
  induction calls generalizing r with
  | nil => simp [insertRun, accepted]
  | cons c cs ih =>
    rw [insertRun, ih, insertCall_eq]
    by_cases h : c.1 ∈ r.ids <;> simp [h, accepted, Except.isOk, Except.toBool]

/-- A run keeps the forms of a registry distinct. -/
theorem insertRun_ids_nodup {r : KernelRegistry ρ} (hr : r.ids.Nodup)
    (calls : List (FormId × ElementKernel ρ)) : (r.insertRun calls).2.ids.Nodup := by
  induction calls generalizing r with
  | nil => exact hr
  | cons c cs ih =>
    refine ih ?_
    by_cases h : c.1 ∈ r.ids
    · rwa [insertCall_eq, if_pos h]
    · rw [insertCall_eq, if_neg h, ids, List.map_append, List.map_singleton, List.nodup_append]
      exact ⟨hr, List.pairwise_singleton _ _, fun a ha b hb => by
        rw [List.mem_singleton] at hb
        exact hb ▸ fun e => h (e ▸ ha)⟩

/-- `contains` answers yes exactly when `get` finds a kernel. -/
theorem contains_iff_get (r : KernelRegistry ρ) (id : FormId) :
    r.contains id = true ↔ ∃ k, r.get id = .ok k := by
  rw [contains_eq, decide_eq_true_iff]
  unfold get
  constructor
  · intro h
    obtain ⟨⟨i, k⟩, hfind⟩ : ∃ c, r.kernels.find? (·.1 == id) = some c := by
      obtain ⟨c, hc, rfl⟩ := List.mem_map.1 h
      exact Option.isSome_iff_exists.1 (List.find?_isSome.2 ⟨c, hc, by simp⟩)
    exact ⟨k, by rw [hfind]⟩
  · rintro ⟨k, hk⟩
    cases hfind : r.kernels.find? (·.1 == id) with
    | none => rw [hfind] at hk; cases hk
    | some c =>
      obtain ⟨hc, hmem⟩ := List.find?_eq_some_iff_append.1 hfind |>.imp_right fun ⟨as, bs, e, _⟩ =>
        (e ▸ List.mem_append_right as List.mem_cons_self : c ∈ r.kernels)
      exact List.mem_map.2 ⟨c, hmem, by simpa using hc⟩

/-- The forms of a registry of distinct forms are listed in strictly increasing order of name. -/
theorem formIds_pairwise_lt {r : KernelRegistry ρ} (hr : r.ids.Nodup) :
    r.formIds.Pairwise fun a b => a.name < b.name := by
  have hle := @List.pairwise_mergeSort FormId (fun a b => decide (a.name ≤ b.name))
    (fun a b c hab hbc => by simp only [decide_eq_true_eq] at *; exact le_trans hab hbc)
    (fun a b => by simpa using le_total a.name b.name) (r.kernels.map Prod.fst)
  have hnd : r.formIds.Nodup := (List.mergeSort_perm _ _).nodup_iff.2 hr
  refine (hle.and hnd).imp fun ⟨hab, hne⟩ => ?_
  exact lt_of_le_of_ne (by simpa using hab) (FormId.name_injective.ne hne)

theorem mem_formIds {r : KernelRegistry ρ} {id : FormId} : id ∈ r.formIds ↔ id ∈ r.ids :=
  List.mem_mergeSort

/-- Store semantics of a registry filled from empty by any run of calls: the next call is
refused, leaving the registry as it is, exactly when its form was accepted before, and is
accepted otherwise; a call of the run was accepted exactly when its form is new to the run;
`get` gives the kernel of the first accepted call of the form, or `unknownForm`; `contains`
agrees with `get`; `size` counts the accepted forms, which are distinct; and `formIds` lists
them, in strictly increasing order. -/
theorem insertRun_laws (calls : List (FormId × ElementKernel ρ)) :
    let run := (empty : KernelRegistry ρ).insertRun calls
    let acc := accepted calls run.1
    (∀ id k, run.2.insertCall (id, k) = if id ∈ acc.map Prod.fst then
        (.error (.duplicateForm id), run.2) else (.ok (), ⟨run.2.kernels ++ [(id, k)]⟩)) ∧
      run.1 = calls.mapIdx (fun i c => if c.1 ∈ (calls.take i).map Prod.fst then
        .error (.duplicateForm c.1) else .ok ()) ∧
      (∀ id, run.2.get id =
        (acc.find? (·.1 == id)).elim (.error (.unknownForm id)) fun c => .ok c.2) ∧
      (∀ id, run.2.contains id = true ↔ ∃ k, run.2.get id = .ok k) ∧
      run.2.size = acc.length ∧ (acc.map Prod.fst).Nodup ∧
      (∀ id, id ∈ run.2.formIds ↔ id ∈ acc.map Prod.fst) ∧
      run.2.formIds.Pairwise (fun a b => a.name < b.name) := by
  intro run acc
  have hk : run.2.kernels = acc := (insertRun_kernels empty calls).trans (List.nil_append _)
  have hids : run.2.ids = acc.map Prod.fst := by rw [ids, hk]
  have hnd : run.2.ids.Nodup := insertRun_ids_nodup (r := empty) List.nodup_nil calls
  refine ⟨fun id k => by rw [insertCall_eq, hids], ?_, fun id => ?_, contains_iff_get run.2,
    by rw [size, hk], hids ▸ hnd, fun id => by rw [mem_formIds, hids], formIds_pairwise_lt hnd⟩
  · have h := insertRun_answers (empty : KernelRegistry ρ) calls
    simp only [show (empty : KernelRegistry ρ).ids = [] from rfl, List.nil_append] at h
    exact h
  · unfold get
    rw [hk]
    cases acc.find? (·.1 == id) <;> rfl

end KernelRegistry

end MixedFem
