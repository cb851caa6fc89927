import MixedFem.Sparse.Dirichlet
import MixedFem.Proofs.Sparse.Rows
import MixedFem.Proofs.Loop
import MixedFem.Proofs.Exact

/-!
# Dirichlet conditions on a sparse matrix

`Csr.constrain a D` never scans a column. It rewrites the rows of `D`, marks the rows that those
rows reach off the diagonal, and clears the columns of `D` in the marked rows only. When the
pattern is symmetric, a row that stores an entry in a column of `D` is reached, so every
constrained column is cleared off the diagonal.

* `getElem!_foldl_writes` : a fold whose steps write one position each, with a value fixed by the
  position, leaves the written positions with that value;
* `RowsConstrained` : the values and marks after the rows of a list of dofs are rewritten, with
  its step lemma `RowsConstrained.constrainRow` and its run lemma `RowsConstrained.foldl`;
* `constrain_values` : every stored value of the result, by the offset that holds it;
* `constrain_get?` : the result read at `(r, c)`: zero off the diagonal in the rows and columns
  of `D`, the scale on the diagonal of `D`, the old value elsewhere;
* `constrainRhs_getElem!` : the right-hand side with exactly the entries of `D` zero.
-/

namespace MixedFem

section Writes

variable {α β : Type} [Inhabited α]

theorem getElem!_set!_of_lt (v : Array α) (i : Nat) (x : α) {j : Nat} (hj : j < v.size) :
    (v.set! i x)[j]! = if i = j then x else v[j]! := by
  rw [Array.set!_eq_setIfInBounds, getElem!_pos (v.setIfInBounds i x) j (by simpa using hj),
    getElem!_pos v j hj, Array.getElem_setIfInBounds]

/-- Each step writes `g j` at position `j = h b`, or nothing when `p b` fails. After a run of
steps, a position holds `g j` if some step wrote it and its old value otherwise; the value
written at a position is fixed, so the order of the steps does not matter. -/
theorem getElem!_foldl_writes (step : Array α → β → Array α) (h : β → Nat) (p : β → Prop)
    [DecidablePred p] (g : Nat → α)
    (hstep : ∀ v b, (step v b).size = v.size ∧
      ∀ j < v.size, (step v b)[j]! = if h b = j ∧ p b then g j else v[j]!) :
    ∀ (l : List β) (v : Array α), (l.foldl step v).size = v.size ∧
      ∀ j < v.size, (l.foldl step v)[j]! = if ∃ b ∈ l, h b = j ∧ p b then g j else v[j]!
  | [], v => ⟨rfl, fun j _ => by simp⟩
  | b :: l, v => by
    obtain ⟨hsize, hget⟩ := hstep v b
    obtain ⟨hsize', hget'⟩ := getElem!_foldl_writes step h p g hstep l (step v b)
    refine ⟨hsize'.trans hsize, fun j hj => ?_⟩
    rw [List.foldl_cons, hget' j (hsize ▸ hj), hget j hj]
    by_cases hb : h b = j ∧ p b
    · have hex : ∃ b' ∈ b :: l, h b' = j ∧ p b' := ⟨b, List.mem_cons_self, hb⟩
      rw [if_pos hb, if_pos hex, ite_self]
    · have hex : (∃ b' ∈ b :: l, h b' = j ∧ p b') ↔ ∃ b' ∈ l, h b' = j ∧ p b' := by
        simp only [List.mem_cons, exists_eq_or_imp, hb, false_or]
      simp only [if_neg hb, hex]

end Writes

/-- The right-hand side after the elimination: the entries of `dofs` are zero, the others kept. -/
theorem constrainRhs_getElem! {ρ : Type} [RealScalar ρ] {rhs : Array ρ} {dofs : List Nat}
    (hd : ∀ d ∈ dofs, d < rhs.size) :
    ∃ v, constrainRhs rhs dofs = .ok v ∧ v.size = rhs.size ∧
      ∀ i < rhs.size, v[i]! = if i ∈ dofs then Scalar.zero else rhs[i]! := by
  have hfold : constrainRhs rhs dofs = .ok (dofs.foldl (fun v d => v.set! d Scalar.zero) rhs) :=
    foldlM_except_eq_foldl (I := fun v : Array ρ => v.size = rhs.size) _ _ dofs rhs rfl
      fun v d hdm hv => ⟨by simp [hv, hd d hdm], (Array.size_set! ..).trans hv⟩
  have hw := getElem!_foldl_writes (fun v d => v.set! d Scalar.zero) id (fun _ => True)
    (fun _ => Scalar.zero) (fun v d => ⟨Array.size_set! .., fun j hj => by
      rw [getElem!_set!_of_lt v _ _ hj]
      simp⟩) dofs rhs
  refine ⟨_, hfold, hw.1, fun i hi => ?_⟩
  rw [hw.2 i hi]
  simp

namespace Csr

open SparsityPattern

variable {ρ : Type} [RealScalar ρ]

theorem constrainRow_eq (a : Csr ρ) (scale : ρ) (acc : Array ρ × Array Bool) (r : Nat) :
    a.constrainRow scale acc r = (a.pattern.positions r).foldl
      (fun x k => if a.pattern.colIndices[k]! = r then (x.1.set! k scale, x.2)
        else (x.1.set! k Scalar.zero, x.2.set! a.pattern.colIndices[k]! true)) acc := by
  simp only [constrainRow, Std.Legacy.Range.forIn_eq_forIn_range', Std.Legacy.Range.size,
    rowRange_eq, Nat.add_sub_cancel, Nat.div_one, forIn_id_ite]
  rfl

theorem clearColumns_eq (a : Csr ρ) (member : Array Bool) (v : Array ρ) (r : Nat) :
    a.clearColumns member v r = (a.pattern.positions r).foldl
      (fun v k => if member[a.pattern.colIndices[k]!]! then v.set! k Scalar.zero else v) v := by
  simp only [clearColumns, Std.Legacy.Range.forIn_eq_forIn_range', Std.Legacy.Range.size,
    rowRange_eq, Nat.add_sub_cancel, Nat.div_one, forIn_id_ite]
  rfl

/-- Rewriting row `r` writes the scale or zero at each of its offsets. -/
theorem constrainRow_values (a : Csr ρ) (scale : ρ) (x : Array ρ × Array Bool) (r : Nat) :
    (a.constrainRow scale x r).1.size = x.1.size ∧ ∀ j < x.1.size, (a.constrainRow scale x r).1[j]! =
      if j ∈ a.pattern.positions r then
        (if a.pattern.colIndices[j]! = r then scale else Scalar.zero) else x.1[j]! := by
  have hfst : (a.constrainRow scale x r).1 = (a.pattern.positions r).foldl
      (fun v k => v.set! k (if a.pattern.colIndices[k]! = r then scale else Scalar.zero)) x.1 := by
    rw [constrainRow_eq]
    refine (List.foldl_hom Prod.fst fun y k => ?_).symm
    split <;> rfl
  have hw := getElem!_foldl_writes (fun v k => v.set! k
      (if a.pattern.colIndices[k]! = r then scale else Scalar.zero)) id (fun _ => True)
    (fun j => if a.pattern.colIndices[j]! = r then scale else Scalar.zero)
    (fun v k => ⟨Array.size_set! .., fun j hj => by
      rw [getElem!_set!_of_lt v _ _ hj]
      by_cases hkj : k = j
      · subst hkj
        simp
      · simp [hkj]⟩) (a.pattern.positions r) x.1
  rw [hfst]
  refine ⟨hw.1, fun j hj => ?_⟩
  rw [hw.2 j hj]
  simp

/-- Rewriting row `r` marks the columns of its entries off the diagonal. -/
theorem constrainRow_marks (a : Csr ρ) (scale : ρ) (x : Array ρ × Array Bool) (r : Nat) :
    (a.constrainRow scale x r).2.size = x.2.size ∧ ∀ c < x.2.size,
      ((a.constrainRow scale x r).2[c]! = true ↔ x.2[c]! = true ∨
        ∃ k ∈ a.pattern.positions r, a.pattern.colIndices[k]! = c ∧ c ≠ r) := by
  have hsnd : (a.constrainRow scale x r).2 = (a.pattern.positions r).foldl
      (fun w k => if a.pattern.colIndices[k]! ≠ r then w.set! a.pattern.colIndices[k]! true else w)
        x.2 := by
    rw [constrainRow_eq]
    refine (List.foldl_hom Prod.snd fun y k => ?_).symm
    by_cases h : a.pattern.colIndices[k]! = r <;> simp [h]
  have hw := getElem!_foldl_writes (fun w k => if a.pattern.colIndices[k]! ≠ r then
      w.set! a.pattern.colIndices[k]! true else w) (fun k => a.pattern.colIndices[k]!)
    (fun k => a.pattern.colIndices[k]! ≠ r) (fun _ => true)
    (fun w k => by
      by_cases h : a.pattern.colIndices[k]! ≠ r
      · simp only [if_pos h, Array.size_set!, true_and]
        intro j hj
        rw [getElem!_set!_of_lt w _ _ hj]
        by_cases hkj : a.pattern.colIndices[k]! = j
        · have hjr : j ≠ r := hkj ▸ h
          simp [hkj, hjr]
        · simp [hkj]
      · simp only [if_neg h, true_and]
        intro j _
        simp [h]) (a.pattern.positions r) x.2
  rw [hsnd]
  refine ⟨hw.1, fun c hc => ?_⟩
  rw [hw.2 c hc]
  by_cases hex : ∃ k ∈ a.pattern.positions r, a.pattern.colIndices[k]! = c ∧ a.pattern.colIndices[k]! ≠ r
  · rw [if_pos hex]
    obtain ⟨k, hk, hkc, hkr⟩ := hex
    exact iff_of_true rfl (Or.inr ⟨k, hk, hkc, hkc ▸ hkr⟩)
  · rw [if_neg hex]
    refine ⟨Or.inl, fun h => h.resolve_right ?_⟩
    rintro ⟨k, hk, hkc, hcr⟩
    exact hex ⟨k, hk, hkc, hkc ▸ hcr⟩

/-- Clearing the constrained columns of row `r` writes zero at its offsets in marked columns. -/
theorem clearColumns_values (a : Csr ρ) (member : Array Bool) (v : Array ρ) (r : Nat) :
    (a.clearColumns member v r).size = v.size ∧ ∀ j < v.size, (a.clearColumns member v r)[j]! =
      if j ∈ a.pattern.positions r ∧ member[a.pattern.colIndices[j]!]! = true then Scalar.zero
      else v[j]! := by
  have hw := getElem!_foldl_writes (fun v k => if member[a.pattern.colIndices[k]!]! = true then
      v.set! k Scalar.zero else v) id (fun k => member[a.pattern.colIndices[k]!]! = true)
    (fun _ => Scalar.zero)
    (fun v k => by
      by_cases h : member[a.pattern.colIndices[k]!]! = true
      · simp only [if_pos h, Array.size_set!, true_and]
        intro j hj
        rw [getElem!_set!_of_lt v _ _ hj]
        by_cases hkj : k = j
        · subst hkj
          simp [h]
        · simp [hkj]
      · simp only [if_neg h, true_and]
        intro j _
        simp [h]) (a.pattern.positions r) v
  rw [clearColumns_eq]
  refine ⟨hw.1, fun j hj => ?_⟩
  rw [hw.2 j hj]
  simp

/-- A matrix on the pattern of `a` whose value at each offset is `F r c` of the old one, with `r`
and `c` the row and the column of the offset, reads as `a` transformed entrywise. -/
theorem get?_of_values {a b : Csr ρ} (ha : a.Valid) (hpat : b.pattern = a.pattern)
    (F : Nat → Nat → ρ → ρ)
    (hval : ∀ r < a.nrows, ∀ k ∈ a.pattern.positions r,
      b.values[k]! = F r a.pattern.colIndices[k]! a.values[k]!) (r c : Nat) :
    b.get? r c = (a.get? r c).map (F r c) := by
  have hb : b.pattern.Valid := hpat ▸ ha.1
  by_cases hs : a.pattern.Stores r c
  · have hr : r < a.pattern.nrows := hs.1
    obtain ⟨k, hk, rfl⟩ := (ha.1.stores_iff hr c).1 hs
    obtain ⟨hk₁, hk₂⟩ := mem_positions.1 hk
    have hbk := b.get?_offset hb (r := r) (k := k) (hpat ▸ hr) (hpat ▸ hk₁) (hpat ▸ hk₂)
    rw [a.get?_offset ha.1 hr hk₁ hk₂, Option.map_some, ← hval r hr k hk, ← hbk, hpat]
  · rw [a.get?_eq_none ha.1 hs, b.get?_eq_none hb (hpat ▸ hs), Option.map_none]

theorem diagonalEntry_eq (a : Csr ρ) (i : Nat) :
    a.diagonalEntry i = (a.get? i i).getD Scalar.zero := by
  simp only [diagonalEntry, get?]
  cases (List.range' _ _).find? _ <;> rfl

/-- The scale is the magnitude of the first diagonal entry that is not zero, or one. -/
theorem diagonalScale_ofFn (n : Nat) (f : Nat → ρ) :
    ((∃ i < n, Scalar.isZero (f i) = false ∧ (∀ j < i, Scalar.isZero (f j) = true) ∧
        diagonalScale (Array.ofFn fun i : Fin n => f i) = RealScalar.abs (f i)) ∨
      ((∀ i < n, Scalar.isZero (f i) = true) ∧
        diagonalScale (Array.ofFn fun i : Fin n => f i) = Scalar.one)) := by
  have hlist : (Array.ofFn fun i : Fin n => f i).toList = (List.range n).map f := by
    apply List.ext_getElem <;> simp
  simp only [diagonalScale, hlist, List.find?_map]
  cases hfind : (List.range n).find? ((fun x => !Scalar.isZero x) ∘ f) with
  | some i =>
    obtain ⟨hnz, hi, hbefore⟩ := List.find?_range_eq_some.1 hfind
    refine Or.inl ⟨i, List.mem_range.1 hi, by simpa using hnz, fun j hj => ?_, rfl⟩
    simpa using hbefore j hj
  | none =>
    refine Or.inr ⟨fun i hi => ?_, rfl⟩
    simpa using List.find?_range_eq_none.1 hfind i hi

section Constrain

variable (a : Csr ρ) (scale : ρ)

/-- The values and marks once the rows of `D` are rewritten: a row of `D` holds the scale on its
diagonal and zero elsewhere, every other row its old values, and the marked rows are the columns
that a row of `D` stores off its diagonal. -/
structure RowsConstrained (D : List Nat) (x : Array ρ × Array Bool) : Prop where
  size_values : x.1.size = a.values.size
  size_marks : x.2.size = a.nrows
  values : ∀ r < a.nrows, ∀ k ∈ a.pattern.positions r, x.1[k]! =
    if r ∈ D then (if a.pattern.colIndices[k]! = r then scale else Scalar.zero) else a.values[k]!
  marks : ∀ c < a.nrows, (x.2[c]! = true ↔ ∃ d ∈ D, a.pattern.Stores d c ∧ c ≠ d)

variable {a scale}

theorem RowsConstrained.init : RowsConstrained a scale [] (a.values, Array.replicate a.nrows false) where
  size_values := rfl
  size_marks := Array.size_replicate ..
  values _ _ _ _ := by simp
  marks c hc := by simp [hc]

/-- The step: rewriting row `d` adds it to the rows of `D`. -/
theorem RowsConstrained.constrainRow (ha : a.Valid) {D : List Nat} {x : Array ρ × Array Bool}
    (h : RowsConstrained a scale D x) {d : Nat} (hd : d < a.nrows) :
    RowsConstrained a scale (D ++ [d]) (a.constrainRow scale x d) := by
  obtain ⟨hv₁, hv₂⟩ := a.constrainRow_values scale x d
  obtain ⟨hm₁, hm₂⟩ := a.constrainRow_marks scale x d
  refine ⟨hv₁.trans h.size_values, hm₁.trans h.size_marks, fun r hr k hk => ?_, fun c hc => ?_⟩
  · have hks : k < x.1.size := h.size_values ▸ ha.2 ▸ ha.1.lt_nnz hr hk
    rw [hv₂ k hks, h.values r hr k hk]
    simp only [ha.1.mem_positions_iff hr hk d]
    -- only the offsets of row `d` change, and row `d` joins the rewritten rows
    by_cases hdr : d = r
    · subst hdr
      simp
    · simp [hdr, Ne.symm hdr]
  · have hrow : (∃ k ∈ a.pattern.positions d, a.pattern.colIndices[k]! = c ∧ c ≠ d) ↔
        a.pattern.Stores d c ∧ c ≠ d := by
      rw [ha.1.stores_iff hd]
      constructor
      · rintro ⟨k, hk, hkc, hcd⟩
        exact ⟨⟨k, hk, hkc⟩, hcd⟩
      · rintro ⟨⟨k, hk, hkc⟩, hcd⟩
        exact ⟨k, hk, hkc, hcd⟩
    rw [hm₂ c (h.size_marks ▸ hc), h.marks c hc, hrow]
    simp only [List.mem_append, List.mem_singleton, or_and_right, exists_or, exists_eq_left]

/-- The run: rewriting the rows of `l` in turn. -/
theorem RowsConstrained.foldl (ha : a.Valid) : ∀ (l D : List Nat) (x : Array ρ × Array Bool),
    RowsConstrained a scale D x → (∀ d ∈ l, d < a.nrows) →
    RowsConstrained a scale (D ++ l) (l.foldl (a.constrainRow scale) x)
  | [], D, x, h, _ => by simpa using h
  | d :: l, D, x, h, hl => by
    have hrun := RowsConstrained.foldl ha l (D ++ [d]) _ (h.constrainRow ha (hl d List.mem_cons_self))
      fun d' hd' => hl d' (List.mem_cons_of_mem d hd')
    simpa using hrun

/-- The second pass clears, in each marked row that is not constrained, the offsets in
constrained columns. -/
theorem RowsConstrained.clearPass (ha : a.Valid) {D : List Nat} {x : Array ρ × Array Bool}
    (h : RowsConstrained a scale D x) (member : Array Bool) :
    let v := (List.range a.nrows).foldl (fun v r =>
      if (x.2[r]! && !member[r]!) = true then a.clearColumns member v r else v) x.1
    v.size = a.values.size ∧ ∀ r < a.nrows, ∀ k ∈ a.pattern.positions r, v[k]! =
      if x.2[r]! = true ∧ member[r]! = false ∧ member[a.pattern.colIndices[k]!]! = true then
        Scalar.zero else x.1[k]! := by
  -- the invariant: the rows below `J` have been visited
  have hrun := @foldl_range_invariant (Array ρ) (fun J v =>
      v.size = a.values.size ∧ ∀ r < a.nrows, ∀ k ∈ a.pattern.positions r, v[k]! =
        if r < J ∧ x.2[r]! = true ∧ member[r]! = false ∧
          member[a.pattern.colIndices[k]!]! = true then Scalar.zero else x.1[k]!) a.nrows
    (fun v r => if (x.2[r]! && !member[r]!) = true then a.clearColumns member v r else v)
    (fun v J hJ ⟨hsize, hv⟩ => by
      by_cases hvisit : (x.2[J]! && !member[J]!) = true
      · obtain ⟨hc₁, hc₂⟩ := a.clearColumns_values member v J
        rw [if_pos hvisit]
        refine ⟨hc₁.trans hsize, fun r hr k hk => ?_⟩
        have hks : k < v.size := hsize ▸ ha.2 ▸ ha.1.lt_nnz hr hk
        rw [hc₂ k hks, hv r hr k hk]
        simp only [ha.1.mem_positions_iff hr hk J]
        simp only [Bool.and_eq_true, Bool.not_eq_true'] at hvisit
        by_cases hJr : J = r
        · subst hJr
          simp [hvisit]
        · have hlt : r < J + 1 ↔ r < J := by omega
          simp [hJr, hlt]
      · rw [if_neg hvisit]
        refine ⟨hsize, fun r hr k hk => ?_⟩
        rw [hv r hr k hk]
        simp only [Bool.and_eq_true, Bool.not_eq_true', not_and] at hvisit
        by_cases hJr : J = r
        · subst hJr
          by_cases hx : x.2[J]! = true
          · simp [hvisit hx]
          · simp [hx]
        · have hlt : r < J + 1 ↔ r < J := by omega
          simp [hlt])
    x.1 ⟨h.size_values, fun _ _ _ _ => by simp⟩ a.nrows le_rfl
  intro v
  refine ⟨hrun.1, fun r hr k hk => ?_⟩
  rw [hrun.2 r hr k hk]
  simp [hr]

end Constrain

theorem markRows_eq {n : Nat} {dofs : List Nat} (hd : ∀ d ∈ dofs, d < n) :
    ∃ m, markRows n dofs = .ok m ∧ m.size = n ∧ ∀ c < n, (m[c]! = true ↔ c ∈ dofs) := by
  have hfold : markRows n dofs =
      .ok (dofs.foldl (fun m r => m.set! r true) (Array.replicate n false)) := by
    refine foldlM_except_eq_foldl (I := fun m : Array Bool => m.size = n) _ _ dofs _
      (Array.size_replicate ..) fun m r hr hm => ⟨?_, (Array.size_set! ..).trans hm⟩
    have hrm : r < m.size := hm ▸ hd r hr
    simp [Violation.get, hrm]
  have hw := getElem!_foldl_writes (fun m r => m.set! r true) id (fun _ => True) (fun _ => true)
    (fun m r => ⟨Array.size_set! .., fun j hj => by
      rw [getElem!_set!_of_lt m _ _ hj]
      simp⟩) dofs (Array.replicate n false)
  refine ⟨_, hfold, hw.1.trans (Array.size_replicate ..), fun c hc => ?_⟩
  rw [hw.2 c (by simpa using hc)]
  by_cases hcd : c ∈ dofs <;> simp [hcd, hc]

section Eliminate

variable {a : Csr ρ} {dofs : List Nat}

/-- Every stored value after the elimination, at its offset: rows and columns of `dofs` hold zero
off the diagonal and the scale on it, the other offsets their old values. -/
theorem constrain_values (ha : a.Valid) (hsq : a.nrows = a.ncols)
    (hsym : ∀ r c, a.pattern.Stores r c → a.pattern.Stores c r) (hd : ∀ d ∈ dofs, d < a.nrows) :
    ∃ a', a.constrain dofs = .ok a' ∧ a'.pattern = a.pattern ∧
      ∀ r < a.nrows, ∀ k ∈ a.pattern.positions r, a'.values[k]! =
        if r ∈ dofs ∨ a.pattern.colIndices[k]! ∈ dofs then
          (if r = a.pattern.colIndices[k]! then
            diagonalScale (Array.ofFn fun i : Fin a.nrows => a.diagonalEntry i) else Scalar.zero)
        else a.values[k]! := by
  obtain ⟨member, hmark, -, hmem⟩ := markRows_eq hd
  have hrows : RowsConstrained a (diagonalScale (Array.ofFn fun i : Fin a.nrows => a.diagonalEntry i))
      dofs (dofs.foldl (a.constrainRow (diagonalScale (Array.ofFn fun i : Fin a.nrows =>
        a.diagonalEntry i))) (a.values, Array.replicate a.nrows false)) :=
    RowsConstrained.foldl ha dofs [] _ RowsConstrained.init hd
  obtain ⟨-, hclear⟩ := hrows.clearPass ha member
  simp only [constrain, Violation.requireEq, if_pos hsq, diagonal, hmark]
  refine ⟨_, rfl, rfl, fun r hr k hk => ?_⟩
  rw [hclear r hr k hk, hrows.values r hr k hk]
  have hcol : a.pattern.colIndices[k]! < a.nrows := hsq ▸ ha.1.col_lt_ncols hr hk
  by_cases hrd : r ∈ dofs
  · -- a constrained row is left alone by the second pass
    have hm : member[r]! = true := (hmem r hr).2 hrd
    by_cases hrc : r = a.pattern.colIndices[k]!
    · simp [hrc]
    · simp [hrd, hm, hrc, Ne.symm hrc]
  · by_cases hcd : a.pattern.colIndices[k]! ∈ dofs
    · -- the symmetric entry marks row `r`, and its entry in a constrained column is cleared
      have hmarked : (dofs.foldl (a.constrainRow _) (a.values, Array.replicate a.nrows false)).2[r]!
          = true := (hrows.marks r hr).2 ⟨_, hcd,
            hsym r _ ((ha.1.stores_iff hr _).2 ⟨k, hk, rfl⟩), fun h => hrd (h ▸ hcd)⟩
      have hm : member[r]! = false := by
        simpa using mt (hmem r hr).1 hrd
      have hmc : member[a.pattern.colIndices[k]!]! = true := (hmem _ hcol).2 hcd
      have hne : r ≠ a.pattern.colIndices[k]! := fun h => hrd (h ▸ hcd)
      simp [hmarked, hm, hmc, hcd, hne]
    · have hmc : member[a.pattern.colIndices[k]!]! = false := by
        simpa using mt (hmem _ hcol).1 hcd
      simp [hrd, hcd, hmc]

/-- The elimination read at `(r, c)`. -/
theorem constrain_get? (ha : a.Valid) (hsq : a.nrows = a.ncols)
    (hsym : ∀ r c, a.pattern.Stores r c → a.pattern.Stores c r) (hd : ∀ d ∈ dofs, d < a.nrows) :
    ∃ a', a.constrain dofs = .ok a' ∧ a'.pattern = a.pattern ∧ ∀ r c, a'.get? r c =
      (a.get? r c).map fun v => if r ∈ dofs ∨ c ∈ dofs then
        (if r = c then diagonalScale (Array.ofFn fun i : Fin a.nrows => a.diagonalEntry i)
          else Scalar.zero) else v := by
  obtain ⟨a', h, hpat, hval⟩ := constrain_values ha hsq hsym hd
  exact ⟨a', h, hpat, get?_of_values ha hpat _ hval⟩


/-- Homogeneous Dirichlet conditions on a square matrix with a symmetric pattern: with `s` the
magnitude of the first nonzero diagonal entry (or one), the pattern is kept, every stored entry
in a row or a column of `dofs` becomes zero off the diagonal and `s` on it, and every other
stored entry is kept. So a symmetric matrix stays symmetric, and the right-hand side loses
exactly its entries in `dofs`. -/
theorem constrain_eliminates (a : Csr ρ) (ha : a.Valid) (hsq : a.nrows = a.ncols)
    (hsym : ∀ r c, a.pattern.Stores r c → a.pattern.Stores c r) (dofs : List Nat)
    (hd : ∀ d ∈ dofs, d < a.nrows) :
    ∃ s a', ((∃ i < a.nrows, Scalar.isZero ((a.get? i i).getD Scalar.zero) = false ∧
          (∀ j < i, Scalar.isZero ((a.get? j j).getD Scalar.zero) = true) ∧
          s = RealScalar.abs ((a.get? i i).getD Scalar.zero)) ∨
        ((∀ i < a.nrows, Scalar.isZero ((a.get? i i).getD Scalar.zero) = true) ∧ s = Scalar.one)) ∧
      a.constrain dofs = .ok a' ∧ a'.pattern = a.pattern ∧
      (∀ r c, a'.get? r c = (a.get? r c).map fun v =>
        if r ∈ dofs ∨ c ∈ dofs then (if r = c then s else Scalar.zero) else v) ∧
      ((∀ r c, a.get? r c = a.get? c r) → ∀ r c, a'.get? r c = a'.get? c r) ∧
      ∀ rhs : Array ρ, rhs.size = a.nrows → ∃ v, constrainRhs rhs dofs = .ok v ∧
        v.size = rhs.size ∧ ∀ i < rhs.size, v[i]! = if i ∈ dofs then Scalar.zero else rhs[i]! := by
  obtain ⟨a', h, hpat, hget⟩ := constrain_get? ha hsq hsym hd
  simp only [diagonalEntry_eq] at hget
  refine ⟨_, a', diagonalScale_ofFn a.nrows fun i => (a.get? i i).getD Scalar.zero, h, hpat, hget,
    fun hsymm r c => ?_, fun rhs hrhs => constrainRhs_getElem! fun d hdm => hrhs ▸ hd d hdm⟩
  -- the new value at `(r, c)` is the same function of the old one as at `(c, r)`
  rw [hget r c, hget c r, hsymm r c]
  congr 1
  funext v
  by_cases hrc : r = c
  · subst hrc
    rfl
  · simp only [hrc, Ne.symm hrc, if_false, or_comm]


/-- The second-difference matrix `[[2, -1, 0], [-1, 2, -1], [0, -1, 2]]` on its tridiagonal
pattern, over the rationals. -/
def tridiagonal : Csr (Exact ℚ) :=
  ⟨⟨3, 3, #[0, 2, 5, 7], #[0, 1, 0, 1, 2, 1, 2]⟩,
    #[Exact.mk 2, Exact.mk (-1), Exact.mk (-1), Exact.mk 2, Exact.mk (-1), Exact.mk (-1), Exact.mk 2]⟩

theorem constrain_eliminates_tridiagonal :
    tridiagonal.Valid ∧ tridiagonal.nrows = tridiagonal.ncols ∧
      (∀ r c, tridiagonal.pattern.Stores r c → tridiagonal.pattern.Stores c r) ∧
      (∀ d ∈ [0, 0], d < tridiagonal.nrows) ∧
    ∃ s a', ((∃ i < tridiagonal.nrows, Scalar.isZero ((tridiagonal.get? i i).getD Scalar.zero) = false ∧
          (∀ j < i, Scalar.isZero ((tridiagonal.get? j j).getD Scalar.zero) = true) ∧
          s = RealScalar.abs ((tridiagonal.get? i i).getD Scalar.zero)) ∨
        ((∀ i < tridiagonal.nrows, Scalar.isZero ((tridiagonal.get? i i).getD Scalar.zero) = true) ∧ s = Scalar.one)) ∧
      tridiagonal.constrain [0, 0] = .ok a' ∧ a'.pattern = tridiagonal.pattern ∧
      (∀ r c, a'.get? r c = (tridiagonal.get? r c).map fun v =>
        if r ∈ [0, 0] ∨ c ∈ [0, 0] then (if r = c then s else Scalar.zero) else v) ∧
      ((∀ r c, tridiagonal.get? r c = tridiagonal.get? c r) → ∀ r c, a'.get? r c = a'.get? c r) ∧
      ∀ rhs : Array (Exact ℚ), rhs.size = tridiagonal.nrows → ∃ v, constrainRhs rhs [0, 0] = .ok v ∧
        v.size = rhs.size ∧ ∀ i < rhs.size, v[i]! = if i ∈ [0, 0] then Scalar.zero else rhs[i]! := by
  have hv : tridiagonal.Valid := ⟨⟨rfl, rfl, rfl, by decide, by decide, by decide⟩, rfl⟩
  have hsym : ∀ r c, tridiagonal.pattern.Stores r c → tridiagonal.pattern.Stores c r := by
    rintro r c ⟨hr, hc⟩
    have hc3 : c < 3 := hv.1.col_lt r hr c hc
    revert hc
    simp only [SparsityPattern.Stores]
    have hr3 : r < 3 := hr
    obtain rfl | rfl | rfl : r = 0 ∨ r = 1 ∨ r = 2 := by omega
    all_goals obtain rfl | rfl | rfl : c = 0 ∨ c = 1 ∨ c = 2 := by omega
    all_goals decide
  exact ⟨hv, rfl, hsym, by decide, constrain_eliminates tridiagonal hv rfl hsym [0, 0] (by decide)⟩

end Eliminate

end Csr

end MixedFem
