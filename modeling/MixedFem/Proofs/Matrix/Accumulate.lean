import Mathlib.Algebra.BigOperators.Group.Finset.Piecewise
import Mathlib.Algebra.BigOperators.Group.List.Basic
import MixedFem.Proofs.Exact
import MixedFem.Proofs.Matrix.Entries

/-!
# Matrices built by accumulation

The element tensors are built by loops that add (or subtract) one term at a time to an entry of
a matrix of fixed shape. Over an exact field such a loop adds to every entry the sum of the
terms aimed at it, in whatever order they come.

* `AddsEntries r c δ f` : on every well-formed `r × c` matrix, `f` keeps the shape and adds
  `δ i j` to the entry `(i, j)`;
* `addsEntries_addAt`, `addsEntries_subAt` : one update;
* `addsEntries_foldl` : a loop of such steps adds the sum of their terms, so nested loops are
  read one level at a time;
* `HasEntries r c e M` : `M` is a well-formed `r × c` matrix with entries `e`;
  `hasEntries_foldl_zeros` : a loop from the zero matrix has the sums of its terms as entries;
* `sum_decode` : a sum over positions `k a + c` with `c < k` picks out `a = i / k`, `c = i % k`;
  `sum_decode_one` with `c` fixed, `sum_decode_pair` for a row and a column position at once.
-/

namespace MixedFem

namespace Matrix

variable {K : Type} [Field K] [DecidableEq K]

/-- `f` keeps the shape `r × c` and adds `δ i j` to every entry `(i, j)`. -/
def AddsEntries (r c : Nat) (δ : Nat → Nat → K) (f : Matrix (Exact K) → Matrix (Exact K)) : Prop :=
  ∀ m : Matrix (Exact K), m.rows = r → m.cols = c → m.WF →
    (f m).rows = r ∧ (f m).cols = c ∧ (f m).WF ∧
      ∀ i < r, ∀ j < c, ((f m).get i j).val = (m.get i j).val + δ i j

variable {r c : Nat}

theorem addsEntries_addAt {i j : Nat} (hi : i < r) (hj : j < c) (v : Exact K) :
    AddsEntries r c (fun i' j' => if i' = i ∧ j' = j then v.val else 0) (fun m => m.addAt i j v) := by
  intro m hr hc hm
  refine ⟨by simp [hr], by simp [hc], hm.addAt, fun i' hi' j' hj' => ?_⟩
  rw [get_addAt hm (hr ▸ hi) (hc ▸ hj) (hr ▸ hi') (hc ▸ hj')]
  beta_reduce
  by_cases h : i' = i ∧ j' = j
  · rw [if_pos h, if_pos h, Exact.val_add]
  · rw [if_neg h, if_neg h, add_zero]

theorem addsEntries_subAt {i j : Nat} (hi : i < r) (hj : j < c) (v : Exact K) :
    AddsEntries r c (fun i' j' => if i' = i ∧ j' = j then -v.val else 0) (fun m => m.subAt i j v) := by
  intro m hr hc hm
  refine ⟨by simp [hr], by simp [hc], hm.subAt, fun i' hi' j' hj' => ?_⟩
  rw [get_subAt hm (hr ▸ hi) (hc ▸ hj) (hr ▸ hi') (hc ▸ hj')]
  beta_reduce
  by_cases h : i' = i ∧ j' = j
  · rw [if_pos h, if_pos h, Exact.val_sub, sub_eq_add_neg]
  · rw [if_neg h, if_neg h, add_zero]

/-- Two steps in a row add the sum of their terms. -/
theorem AddsEntries.comp {δ₁ δ₂ : Nat → Nat → K} {f₁ f₂ : Matrix (Exact K) → Matrix (Exact K)}
    (h₁ : AddsEntries r c δ₁ f₁) (h₂ : AddsEntries r c δ₂ f₂) :
    AddsEntries r c (fun i j => δ₁ i j + δ₂ i j) (fun m => f₂ (f₁ m)) := by
  intro m hr hc hm
  obtain ⟨hr₁, hc₁, hm₁, hget₁⟩ := h₁ m hr hc hm
  obtain ⟨hr₂, hc₂, hm₂, hget₂⟩ := h₂ (f₁ m) hr₁ hc₁ hm₁
  refine ⟨hr₂, hc₂, hm₂, fun i hi j hj => ?_⟩
  rw [hget₂ i hi j hj, hget₁ i hi j hj, add_assoc]

theorem addsEntries_id : AddsEntries r c (fun _ _ => (0 : K)) (fun m => m) :=
  fun _ hr hc hm => ⟨hr, hc, hm, fun _ _ _ _ => (add_zero _).symm⟩

/-- A loop whose every step adds entries adds, to each entry, the sum over the loop. -/
theorem addsEntries_foldl {β : Type} {δ : β → Nat → Nat → K}
    {f : β → Matrix (Exact K) → Matrix (Exact K)} :
    ∀ xs : List β, (∀ x ∈ xs, AddsEntries r c (δ x) (f x)) →
      AddsEntries r c (fun i j => (xs.map fun x => δ x i j).sum) (fun m => xs.foldl (fun m x => f x m) m)
  | [], _ => by simpa using addsEntries_id
  | x :: xs, h => by
    have hx := h x List.mem_cons_self
    have hxs := addsEntries_foldl xs fun y hy => h y (List.mem_cons_of_mem x hy)
    simpa using hx.comp hxs

/-- `M` is a well-formed `r × c` matrix with entry `e i j` at `(i, j)`. -/
def HasEntries (r c : Nat) (e : Nat → Nat → K) (M : Matrix (Exact K)) : Prop :=
  M.rows = r ∧ M.cols = c ∧ M.WF ∧ ∀ i < r, ∀ j < c, (M.get i j).val = e i j

/-- A loop of additions started from the zero matrix leaves the sums of its terms. -/
theorem hasEntries_foldl_zeros {β : Type} {δ e : Nat → Nat → K} {xs : List β}
    {f : β → Matrix (Exact K) → Matrix (Exact K)}
    (hacc : AddsEntries r c δ (fun m => xs.foldl (fun m x => f x m) m))
    (he : ∀ i < r, ∀ j < c, δ i j = e i j) :
    HasEntries r c e (xs.foldl (fun m x => f x m) (zeros r c)) := by
  obtain ⟨h1, h2, h3, h4⟩ := hacc _ rfl rfl (WF.zeros r c)
  refine ⟨h1, h2, h3, fun i hi j hj => ?_⟩
  rw [h4 i hi j hj, get_zeros, Exact.val_zero, zero_add, he i hi j hj]

end Matrix

/-- A sum over `List.range' 0 n` is the sum over `Finset.range n`. -/
theorem sum_range'_eq_sum_range {M : Type} [AddCommMonoid M] (n : Nat) (f : Nat → M) :
    ((List.range' 0 n).map f).sum = ∑ i ∈ Finset.range n, f i := by
  rw [← List.range_eq_range']
  rfl

/-- A position `k a + c` with `c < k` determines `a` and `c`. -/
theorem eq_mul_add_iff {k a c i : Nat} (hc : c < k) : i = k * a + c ↔ i / k = a ∧ i % k = c := by
  rw [Nat.div_mod_unique (by omega)]
  omega

/-- Summing over all positions `k a + c` (`a < n`, `c < k`) the terms aimed at `i` leaves the one
term of `a = i / k` and `c = i % k`. -/
theorem sum_decode {M : Type} [AddCommMonoid M] {k : Nat} (hk : 0 < k) (n i : Nat)
    (g : Nat → Nat → M) :
    ∑ a ∈ Finset.range n, ∑ c ∈ Finset.range k, (if i = k * a + c then g a c else 0) =
      if i < k * n then g (i / k) (i % k) else 0 := by
  have inner : ∀ a, ∑ c ∈ Finset.range k, (if i = k * a + c then g a c else 0) =
      if i / k = a then g a (i % k) else 0 := by
    intro a
    rw [Finset.sum_congr rfl (g := fun c => if i % k = c then (if i / k = a then g a c else 0) else 0)
      fun c hc => by
        rw [Finset.mem_range] at hc
        by_cases h : i / k = a ∧ i % k = c
        · rw [if_pos ((eq_mul_add_iff hc).2 h), if_pos h.2, if_pos h.1]
        · rw [if_neg (fun h' => h ((eq_mul_add_iff hc).1 h'))]
          by_cases h2 : i % k = c
          · rw [if_pos h2, if_neg (fun h1 => h ⟨h1, h2⟩)]
          · rw [if_neg h2]]
    rw [Finset.sum_ite_eq, if_pos (Finset.mem_range.2 (Nat.mod_lt _ hk))]
  have hlt : i / k ∈ Finset.range n ↔ i < k * n := by
    rw [Finset.mem_range, Nat.div_lt_iff_lt_mul hk, Nat.mul_comm]
  rw [Finset.sum_congr rfl fun a _ => inner a, Finset.sum_ite_eq]
  exact if_congr hlt rfl rfl

/-- With the offset `c < k` fixed, a sum over positions `k b + c` picks out `b = j / k`, if `j`
has offset `c`. -/
theorem sum_decode_one {M : Type} [AddCommMonoid M] {k c : Nat} (hc : c < k) (n j : Nat)
    (f : Nat → M) :
    ∑ b ∈ Finset.range n, (if j = k * b + c then f b else 0) =
      if j % k = c ∧ j < k * n then f (j / k) else 0 := by
  have hk : 0 < k := by omega
  rw [Finset.sum_congr rfl (g := fun b => if j / k = b then (if j % k = c then f b else 0) else 0)
    fun b _ => by
      by_cases h : j / k = b ∧ j % k = c
      · rw [if_pos ((eq_mul_add_iff hc).2 h), if_pos h.1, if_pos h.2]
      · rw [if_neg (fun h' => h ((eq_mul_add_iff hc).1 h'))]
        by_cases h1 : j / k = b
        · rw [if_pos h1, if_neg (fun h2 => h ⟨h1, h2⟩)]
        · rw [if_neg h1]]
  rw [Finset.sum_ite_eq]
  by_cases h : j % k = c ∧ j < k * n
  · rw [if_pos h, if_pos (Finset.mem_range.2 ((Nat.div_lt_iff_lt_mul hk).2 (by rw [Nat.mul_comm]; exact h.2))),
      if_pos h.1]
  · rw [if_neg h]
    by_cases hj : j / k ∈ Finset.range n
    · rw [if_pos hj, if_neg]
      intro h1
      rw [Finset.mem_range, Nat.div_lt_iff_lt_mul hk, Nat.mul_comm] at hj
      exact h ⟨h1, hj⟩
    · rw [if_neg hj]

/-- A sum over a column position `k₂ b + d` and a row position `k₁ a + c` of the terms aimed at
`(p, q)` leaves the one term of `p = k₁ a + c`, `q = k₂ b + d`. -/
theorem sum_decode_pair {M : Type} [AddCommMonoid M] {k₁ k₂ : Nat} (hk₁ : 0 < k₁) (hk₂ : 0 < k₂)
    (n₁ n₂ p q : Nat) (g : Nat → Nat → Nat → Nat → M) :
    ∑ b ∈ Finset.range n₂, ∑ d ∈ Finset.range k₂, ∑ a ∈ Finset.range n₁, ∑ c ∈ Finset.range k₁,
        (if p = k₁ * a + c ∧ q = k₂ * b + d then g a c b d else 0) =
      if p < k₁ * n₁ ∧ q < k₂ * n₂ then g (p / k₁) (p % k₁) (q / k₂) (q % k₂) else 0 := by
  have inner : ∀ b d, ∑ a ∈ Finset.range n₁, ∑ c ∈ Finset.range k₁,
      (if p = k₁ * a + c ∧ q = k₂ * b + d then g a c b d else 0) =
        if q = k₂ * b + d then (if p < k₁ * n₁ then g (p / k₁) (p % k₁) b d else 0) else 0 := by
    intro b d
    by_cases hq : q = k₂ * b + d
    · simp only [hq, and_true, if_true]
      exact sum_decode hk₁ n₁ p fun a c => g a c b d
    · simp [hq]
  simp only [inner]
  rw [sum_decode hk₂ n₂ q fun b d => if p < k₁ * n₁ then g (p / k₁) (p % k₁) b d else 0]
  by_cases hp : p < k₁ * n₁ <;> by_cases hq : q < k₂ * n₂ <;> simp [hp, hq]

end MixedFem
