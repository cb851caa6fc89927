import Mathlib.Algebra.BigOperators.Group.Finset.Basic
import MixedFem.Matrix.Basic

/-!
# Entries of dense matrices

A dense matrix stores its entries column by column in one array. These lemmas read every
operation of `Matrix` entry by entry, so that later proofs never look at the array again.

* `Matrix.WF m` : the array holds one entry per position, `rows * cols`;
* `get_set`, `get_addAt`, `get_subAt`, `get_swapRows`, `get_zeros`, `get_ofFn` : the entry
  `(r, s)` after each operation, for positions inside the matrix; a row exchange reads row
  `Equiv.swap i k r`;
* `Matrix.ext_get` : two well-formed matrices of one shape are equal when their entries are.
-/

namespace MixedFem

namespace Matrix

variable {α : Type}

/-- The array of a matrix holds exactly one entry per position. -/
def WF (m : Matrix α) : Prop := m.data.size = m.rows * m.cols

/-- Positions are stored at distinct offsets `j * R + i`. -/
theorem offset_inj {R i j r s : Nat} (hi : i < R) (hr : r < R) (h : j * R + i = s * R + r) :
    i = r ∧ j = s := by
  have hmod : (j * R + i) % R = (s * R + r) % R := by rw [h]
  have hdiv : (j * R + i) / R = (s * R + r) / R := by rw [h]
  have hR : 0 < R := by omega
  rw [Nat.mul_comm j, Nat.mul_comm s, Nat.mul_add_mod, Nat.mul_add_mod, Nat.mod_eq_of_lt hi,
    Nat.mod_eq_of_lt hr] at hmod
  rw [Nat.mul_comm j, Nat.mul_comm s, Nat.mul_add_div hR, Nat.mul_add_div hR, Nat.div_eq_of_lt hi,
    Nat.div_eq_of_lt hr] at hdiv
  omega

/-- The offset of a position inside the matrix is inside the array. -/
theorem offset_lt {R C i j : Nat} (hi : i < R) (hj : j < C) : j * R + i < R * C := by
  have : (j + 1) * R ≤ C * R := Nat.mul_le_mul_right R hj
  rw [Nat.succ_mul] at this
  rw [Nat.mul_comm R C]
  omega

@[simp] theorem rows_set (m : Matrix α) (i j : Nat) (v : α) : (m.set i j v).rows = m.rows := rfl

@[simp] theorem cols_set (m : Matrix α) (i j : Nat) (v : α) : (m.set i j v).cols = m.cols := rfl

theorem WF.set {m : Matrix α} {i j : Nat} {v : α} (hm : m.WF) : (m.set i j v).WF := by
  simp [WF, Matrix.set, hm.symm]

@[simp] theorem rows_ofFn (r c : Nat) (f : Nat → Nat → α) : (ofFn r c f).rows = r := rfl

@[simp] theorem cols_ofFn (r c : Nat) (f : Nat → Nat → α) : (ofFn r c f).cols = c := rfl

theorem WF.ofFn (r c : Nat) (f : Nat → Nat → α) : (ofFn r c f).WF := by
  simp [WF, Matrix.ofFn]

variable [Scalar α]

theorem get_eq_getElem {m : Matrix α} {i j : Nat} (hk : j * m.rows + i < m.data.size) :
    m.get i j = m.data[j * m.rows + i] := by
  simp [get, Array.getD_eq_getD_getElem?, Array.getElem?_eq_getElem hk]

section Set

variable (m : Matrix α) (i j : Nat) (v : α)

@[simp] theorem rows_addAt : (m.addAt i j v).rows = m.rows := rfl

@[simp] theorem cols_addAt : (m.addAt i j v).cols = m.cols := rfl

@[simp] theorem rows_subAt : (m.subAt i j v).rows = m.rows := rfl

@[simp] theorem cols_subAt : (m.subAt i j v).cols = m.cols := rfl

end Set

variable {m : Matrix α} {i j r s : Nat} {v : α}

theorem WF.addAt (hm : m.WF) : (m.addAt i j v).WF := hm.set

theorem WF.subAt (hm : m.WF) : (m.subAt i j v).WF := hm.set

/-- Setting a position changes that entry and no other. -/
theorem get_set (hm : m.WF) (hi : i < m.rows) (hj : j < m.cols) (hr : r < m.rows)
    (hs : s < m.cols) : (m.set i j v).get r s = if r = i ∧ s = j then v else m.get r s := by
  have hset : (m.set i j v).WF := hm.set
  rw [get_eq_getElem (hset ▸ offset_lt hr hs), get_eq_getElem (hm ▸ offset_lt hr hs)]
  simp only [Matrix.set, Array.set!_eq_setIfInBounds]
  by_cases h : r = i ∧ s = j
  · obtain ⟨rfl, rfl⟩ := h
    simp
  · have hne : j * m.rows + i ≠ s * m.rows + r := fun he => by
      obtain ⟨h1, h2⟩ := offset_inj hi hr he
      exact h ⟨h1.symm, h2.symm⟩
    rw [Array.getElem_setIfInBounds_ne (hm ▸ offset_lt hr hs) hne, if_neg h]

theorem get_addAt (hm : m.WF) (hi : i < m.rows) (hj : j < m.cols) (hr : r < m.rows)
    (hs : s < m.cols) :
    (m.addAt i j v).get r s = if r = i ∧ s = j then m.get r s + v else m.get r s := by
  rw [addAt, get_set hm hi hj hr hs]
  split_ifs with h
  · rw [h.1, h.2]
  · rfl

theorem get_subAt (hm : m.WF) (hi : i < m.rows) (hj : j < m.cols) (hr : r < m.rows)
    (hs : s < m.cols) :
    (m.subAt i j v).get r s = if r = i ∧ s = j then m.get r s - v else m.get r s := by
  rw [subAt, get_set hm hi hj hr hs]
  split_ifs with h
  · rw [h.1, h.2]
  · rfl

@[simp] theorem rows_zeros (r c : Nat) : (zeros r c : Matrix α).rows = r := rfl

@[simp] theorem cols_zeros (r c : Nat) : (zeros r c : Matrix α).cols = c := rfl

theorem WF.zeros (r c : Nat) : (zeros r c : Matrix α).WF := by
  simp [WF, Matrix.zeros, fill]

@[simp] theorem get_zeros (r c i j : Nat) : (zeros r c : Matrix α).get i j = Scalar.zero := by
  simp only [get, zeros, fill, Array.getD_eq_getD_getElem?, Array.getElem?_replicate]
  split_ifs <;> rfl

/-- The entry `(i, j)` of `ofFn r c f` is `f i j`. -/
theorem get_ofFn {r c : Nat} (f : Nat → Nat → α) (hi : i < r) (hj : j < c) :
    (ofFn r c f).get i j = f i j := by
  rw [get_eq_getElem ((WF.ofFn r c f) ▸ offset_lt hi hj)]
  have hr : 0 < r := by omega
  have hmod : (j * r + i) % r = i := by
    rw [Nat.mul_comm, Nat.mul_add_mod, Nat.mod_eq_of_lt hi]
  have hdiv : (j * r + i) / r = j := by
    rw [Nat.mul_comm, Nat.mul_add_div hr, Nat.div_eq_of_lt hi, Nat.add_zero]
  simp only [Matrix.ofFn, Array.getElem_ofFn, hmod, hdiv]

/-- Exchanging rows column by column keeps the shape. -/
theorem shape_swapRows_foldl (i k : Nat) : ∀ (js : List Nat) (m : Matrix α),
    let m' := js.foldl (fun m j => (m.set i j (m.get k j)).set k j (m.get i j)) m
    m'.rows = m.rows ∧ m'.cols = m.cols
  | [], _ => ⟨rfl, rfl⟩
  | _ :: js, _ => shape_swapRows_foldl i k js _

@[simp] theorem rows_swapRows (m : Matrix α) (i k : Nat) : (m.swapRows i k).rows = m.rows :=
  (shape_swapRows_foldl i k _ m).1

@[simp] theorem cols_swapRows (m : Matrix α) (i k : Nat) : (m.swapRows i k).cols = m.cols :=
  (shape_swapRows_foldl i k _ m).2

/-- Exchanging rows `i` and `k` in the first `J` columns: those columns read row `swap i k r`
where the others read row `r`. -/
theorem get_swapRows_columns (hm : m.WF) {k : Nat} (hi : i < m.rows) (hk : k < m.rows) :
    ∀ J ≤ m.cols, let m' := (List.range J).foldl (fun m j =>
        (m.set i j (m.get k j)).set k j (m.get i j)) m
      m'.WF ∧ ∀ r < m.rows, ∀ s < m.cols,
        m'.get r s = if s < J then m.get (Equiv.swap i k r) s else m.get r s := by
  intro J hJ
  induction J with
  | zero => exact ⟨hm, fun r _ s _ => by simp⟩
  | succ J ih =>
    obtain ⟨hw', hget⟩ := ih (by omega)
    obtain ⟨hr', hc'⟩ := shape_swapRows_foldl i k (List.range J) m
    simp only [List.range_succ, List.foldl_append, List.foldl_cons, List.foldl_nil]
    refine ⟨hw'.set.set, fun r hr s hs => ?_⟩
    rw [get_set hw'.set (by simp [hr', hk]) (by simp [hc']; omega) (by simp [hr', hr])
        (by simp [hc', hs]),
      get_set hw' (by simp [hr', hi]) (by simp [hc']; omega) (by simp [hr', hr]) (by simp [hc', hs]),
      hget i hi J (by omega), hget k hk J (by omega), hget r hr s hs, if_neg (Nat.lt_irrefl J),
      if_neg (Nat.lt_irrefl J), Equiv.swap_apply_def]
    by_cases hsJ : s = J
    · -- the column just exchanged
      subst hsJ
      split_ifs <;> simp_all
    · have hlt : s < J + 1 ↔ s < J := by omega
      simp only [hsJ, and_false, if_false, hlt]

theorem WF.swapRows {k : Nat} (hm : m.WF) (hi : i < m.rows) (hk : k < m.rows) : (m.swapRows i k).WF :=
  (get_swapRows_columns hm hi hk m.cols le_rfl).1

/-- Exchanging two rows: row `r` of the result is row `swap i k r` of the matrix. -/
theorem get_swapRows {k : Nat} (hm : m.WF) (hi : i < m.rows) (hk : k < m.rows) (hr : r < m.rows)
    (hs : s < m.cols) : (m.swapRows i k).get r s = m.get (Equiv.swap i k r) s := by
  rw [swapRows, (get_swapRows_columns hm hi hk m.cols le_rfl).2 r hr s hs, if_pos hs]

/-- Row `i` of the exchange of rows `i` and `k` is row `k`. -/
theorem get_swapRows_left {k : Nat} (hm : m.WF) (hi : i < m.rows) (hk : k < m.rows)
    (hs : s < m.cols) : (m.swapRows i k).get i s = m.get k s := by
  rw [get_swapRows hm hi hk hi hs, Equiv.swap_apply_left]

/-- Two well-formed matrices of one shape are equal when all their entries are. -/
theorem ext_get {a b : Matrix α} (ha : a.WF) (hb : b.WF) (hr : a.rows = b.rows)
    (hc : a.cols = b.cols) (h : ∀ i < a.rows, ∀ j < a.cols, a.get i j = b.get i j) : a = b := by
  obtain ⟨ar, ac, ad⟩ := a
  obtain ⟨br, bc, bd⟩ := b
  simp only at hr hc
  subst hr hc
  have hsize : ad.size = bd.size := ha.trans hb.symm
  congr 1
  apply Array.ext hsize
  intro k hka hkb
  have hk : k < ar * ac := by
    simp only [WF] at ha hb
    omega
  have hpos : 0 < ar := Nat.pos_of_ne_zero fun h0 => by simp [h0] at hk
  have hi : k % ar < ar := Nat.mod_lt k hpos
  have hj : k / ar < ac := Nat.div_lt_of_lt_mul hk
  have hk' : k = k / ar * ar + k % ar := (Nat.div_add_mod' k ar).symm
  have e := h (k % ar) hi (k / ar) hj
  rw [get_eq_getElem (ha ▸ offset_lt hi hj), get_eq_getElem (hb ▸ offset_lt hi hj)] at e
  simp only [← hk'] at e
  exact e

end Matrix

end MixedFem
