import MixedFem.Proofs.Sparse.Rows

/-!
# Patterns from coordinates

`ofCoordinates` sorts the positions and drops repeats, then makes one pass over them: each
position closes the rows up to its own at the number of columns listed so far and lists its
column; the rows after the last position are closed at the end, and `make` checks the result.
Main statement: when there is room for the offsets and every position lies inside the shape,
the result is a valid pattern that stores exactly the given positions (`ofCoordinates_eq_ok`).

* `posLt_iff` : `posLt` is the lexicographic order on positions;
* `dedup_foldl` : one pass over a sorted list that drops repeats leaves a strictly sorted list
  of the same positions; hence `sortedPositions_spec`;
* `ofSorted` : the pattern of a sorted list, offset `i` counting the positions above row `i`;
  `take_drop_countP` : in a list sorted by row, the positions of row `r` follow those of the
  rows above it; hence `rowCols_ofSorted`, `valid_ofSorted`, `stores_ofSorted`;
* `PassInv` : what the pass holds after a prefix of the positions; `visit_inv` is one step of
  it, `foldlM_visit_ok` and `foldlM_visit_error` the whole pass;
* `make_eq_ok` : `make` accepts every valid pattern, so the check at the end never fails;
* `ofCoordinates_refused_iff` : with room for the offsets, the only refusal is the bounds message,
  given exactly when a position lies outside the shape; `ofCoordinates_exact` puts the two cases
  together, with zeros on the pattern (`Csr.zeros_valid`);
* `ofCoordinates_capacity_first` : from `2^60` offsets on, the reservation fails first.
-/

namespace MixedFem

namespace WordVec

theorem withRoom_of_lt {n : Nat} (h : n < Nat.pow 2 60) : withRoom n = .ok ⟨#[], n⟩ := by
  simp only [withRoom, Violation.require, h, decide_true, if_true]
  rfl

theorem push_of_lt {v : WordVec} (x : Nat) (h : v.data.size < v.room) :
    v.push x = .ok ⟨v.data.push x, v.room⟩ := by
  simp [push, h]

/-- Pushes that stay within the room never grow it. -/
theorem pushN_of_le (x : Nat) : ∀ (k : Nat) (v : WordVec), v.data.size + k ≤ v.room →
    v.pushN x k = .ok ⟨v.data ++ Array.replicate k x, v.room⟩
  | 0, v, _ => by simp [pushN]
  | k + 1, v, h => by
    have hk := pushN_of_le x k ⟨v.data.push x, v.room⟩ (by simp; omega)
    rw [pushN, push_of_lt x (by omega)]
    simp only [bind, Except.bind, hk]
    congr 2
    apply Array.toList_inj.1
    simp [List.replicate_succ]

end WordVec

namespace SparsityPattern

theorem posLt_iff (a b : Nat × Nat) : posLt a b = true ↔ a.1 < b.1 ∨ a.1 = b.1 ∧ a.2 < b.2 := by
  simp [posLt]

theorem pairwise_mergeSort_posLt (l : List (Nat × Nat)) :
    (l.mergeSort fun a b => !posLt b a).Pairwise (fun a b => posLt b a = false) := by
  have h := @List.pairwise_mergeSort _ (fun a b => !posLt b a)
    (fun a b c hab hbc => by
      simp only [Bool.not_eq_true', Bool.eq_false_iff, ne_eq, posLt_iff] at hab hbc ⊢
      omega)
    (fun a b => by
      simp only [Bool.or_eq_true, Bool.not_eq_true', Bool.eq_false_iff, ne_eq, posLt_iff]
      omega) l
  simpa using h

theorem posLt_of_not_posLt {a b : Nat × Nat} (h : posLt b a = false) (hne : a ≠ b) :
    posLt a b = true := by
  have hne' : a.1 ≠ b.1 ∨ a.2 ≠ b.2 := by
    by_cases h1 : a.1 = b.1
    · exact Or.inr fun h2 => hne (Prod.ext h1 h2)
    · exact Or.inl h1
  rw [Bool.eq_false_iff, ne_eq, posLt_iff] at h
  rw [posLt_iff]
  omega

/-- Dropping repeats from a sorted list: what is kept is strictly sorted, and nothing else is
lost. The kept part and the rest together stay sorted. -/
theorem dedup_foldl (step : Array (Nat × Nat) → Nat × Nat → Array (Nat × Nat))
    (hstep : ∀ acc x, step acc x = if acc.back? == some x then acc else acc.push x) :
    ∀ (l : List (Nat × Nat)) (acc : Array (Nat × Nat)),
      (acc.toList ++ l).Pairwise (fun a b => posLt b a = false) →
      acc.toList.Pairwise (fun a b => posLt a b = true) →
      (l.foldl step acc).toList.Pairwise (fun a b => posLt a b = true) ∧
        ∀ x, x ∈ (l.foldl step acc).toList ↔ x ∈ acc.toList ∨ x ∈ l
  | [], acc, _, hacc => ⟨hacc, fun x => by simp⟩
  | x :: l, acc, hle, hacc => by
    rw [List.foldl_cons, hstep]
    by_cases hback : acc.back? = some x
    · -- `x` repeats the last kept position
      rw [if_pos (by simp [hback])]
      obtain ⟨hs, hmem⟩ := dedup_foldl step hstep l acc
        (hle.sublist ((List.sublist_cons_self x l).append_left _)) hacc
      refine ⟨hs, fun y => ?_⟩
      have hx : x ∈ acc.toList := Array.mem_toList_iff.2 (Array.mem_of_back? hback)
      rw [hmem y, List.mem_cons]
      constructor
      · rintro (h | h)
        · exact Or.inl h
        · exact Or.inr (Or.inr h)
      · rintro (h | rfl | h)
        · exact Or.inl h
        · exact Or.inl hx
        · exact Or.inr h
    · rw [if_neg (by simpa using hback)]
      have hle' : ((acc.push x).toList ++ l).Pairwise (fun a b => posLt b a = false) := by
        simpa using hle
      have hlt : ∀ a ∈ acc.toList, posLt a x = true := by
        intro a ha
        have hax : posLt x a = false :=
          (List.pairwise_append.1 hle).2.2 a ha x List.mem_cons_self
        refine posLt_of_not_posLt hax fun hax' => ?_
        -- `x` is kept, so it is not the last kept position `b`; but `a = x` comes before `b`
        subst hax'
        obtain ⟨b, hb⟩ := Option.ne_none_iff_exists'.1 (fun h0 : acc.back? = none => by
          simp [Array.back?_eq_none_iff.1 h0] at ha)
        obtain ⟨ys, hys⟩ := List.getLast?_eq_some_iff.1 ((Array.getLast?_toList acc).trans hb)
        have hab : a ≠ b := fun h => hback (h ▸ hb)
        have ha' : a ∈ ys := by
          rw [hys, List.mem_append, List.mem_singleton] at ha
          exact ha.resolve_right hab
        have hlt' : posLt a b = true := by
          rw [hys] at hacc
          exact (List.pairwise_append.1 hacc).2.2 a ha' b List.mem_cons_self
        have hba : posLt a b = false :=
          (List.pairwise_append.1 hle).2.2 b (by rw [hys]; simp) a List.mem_cons_self
        rw [hlt'] at hba
        exact Bool.noConfusion hba
      have hacc' : (acc.push x).toList.Pairwise (fun a b => posLt a b = true) := by
        rw [Array.toList_push, List.pairwise_append]
        exact ⟨hacc, List.pairwise_singleton _ _, fun a ha b hb => by
          rw [List.mem_singleton.1 hb]
          exact hlt a ha⟩
      obtain ⟨hs, hmem⟩ := dedup_foldl step hstep l (acc.push x) hle' hacc'
      refine ⟨hs, fun y => ?_⟩
      rw [hmem y, Array.toList_push]
      simp only [List.mem_append, List.mem_cons, List.not_mem_nil, or_false, or_assoc]

theorem dedupSorted_sorted {l : List (Nat × Nat)}
    (hl : l.Pairwise (fun a b => posLt b a = false)) :
    (dedupSorted l.toArray).toList.Pairwise (fun a b => posLt a b = true) ∧
      ∀ x, x ∈ (dedupSorted l.toArray).toList ↔ x ∈ l := by
  obtain ⟨hs, hmem⟩ := dedup_foldl _ (fun _ _ => rfl) l #[] (by simpa using hl) List.Pairwise.nil
  rw [dedupSorted, ← Array.foldl_toList, List.toList_toArray]
  exact ⟨hs, fun x => by simpa using hmem x⟩

/-- In a list sorted by row, the positions of row `r` come right after those of the rows above. -/
theorem take_drop_countP (r : Nat) : ∀ l : List (Nat × Nat), l.Pairwise (fun x y => x.1 ≤ y.1) →
    (l.drop (l.countP fun x => x.1 < r)).take (l.countP fun x => x.1 == r) =
      l.filter fun x => x.1 == r
  | [], _ => rfl
  | x :: l, hl => by
    obtain ⟨hx, hl⟩ := List.pairwise_cons.1 hl
    have ih := take_drop_countP r l hl
    simp only [List.countP_cons, List.filter_cons]
    by_cases hxr : x.1 < r
    · have h₁ : (x.1 == r) = false := by simp; omega
      simp only [h₁, decide_eq_true hxr, if_true, if_false, Nat.add_zero, Bool.false_eq_true]
      rw [List.drop_succ_cons, ih]
    · -- every later position is in row `x.1 ≥ r` or below it
      have hbelow : l.countP (fun y => y.1 < r) = 0 :=
        List.countP_eq_zero.2 fun y hy => by have := hx y hy; simp; omega
      rw [hbelow, List.drop_zero] at ih
      simp only [decide_eq_false hxr, hbelow, if_false, Nat.add_zero, Bool.false_eq_true,
        List.drop_zero]
      by_cases hxe : x.1 = r
      · simp only [hxe, beq_self_eq_true, if_true, List.take_succ_cons, ih]
      · have hrow : l.countP (fun y => y.1 == r) = 0 :=
          List.countP_eq_zero.2 fun y hy => by have := hx y hy; simp; omega
        have hnil : l.filter (fun y => y.1 == r) = [] := List.filter_eq_nil_iff.2 fun y hy => by
          have := hx y hy; simp; omega
        have h₁ : (x.1 == r) = false := by simpa using hxe
        simp only [h₁, hrow, hnil, if_false, Nat.add_zero, Bool.false_eq_true, List.take_zero]

theorem countP_lt_succ (l : List (Nat × Nat)) (i : Nat) :
    l.countP (fun x => x.1 < i + 1) = l.countP (fun x => x.1 < i) + l.countP (fun x => x.1 == i) := by
  induction l with
  | nil => rfl
  | cons x l ih =>
    simp only [List.countP_cons, ih]
    by_cases h : x.1 < i
    · rw [if_pos (by simp; omega), if_pos (by simpa using h), if_neg (by simp; omega)]
      omega
    · by_cases he : x.1 = i
      · rw [if_pos (by simp; omega), if_neg (by simpa using h), if_pos (by simp [he])]
        omega
      · rw [if_neg (by simp; omega), if_neg (by simpa using h), if_neg (by simp [he])]
        omega

theorem sortedPositions_spec (coords : Array (Nat × Nat)) :
    (sortedPositions coords).toList.Pairwise (fun a b => posLt a b = true) ∧
      ∀ x, x ∈ (sortedPositions coords).toList ↔ x ∈ coords.toList := by
  obtain ⟨hs, hmem⟩ := dedupSorted_sorted (pairwise_mergeSort_posLt coords.toList)
  exact ⟨hs, fun x => by rw [sortedPositions, hmem, List.mem_mergeSort]⟩

/-- The pattern of positions sorted by row: offset `r` counts the positions in the rows above
`r`, and the columns are listed in the order of the positions. -/
def ofSorted (nrows ncols : Nat) (sorted : Array (Nat × Nat)) : SparsityPattern :=
  ⟨nrows, ncols, ((List.range (nrows + 1)).map fun r => sorted.toList.countP fun x => x.1 < r).toArray,
    sorted.map (·.2)⟩

section OfSorted

variable {nrows ncols : Nat} {sorted : Array (Nat × Nat)}

theorem offsets_ofSorted :
    (ofSorted nrows ncols sorted).rowOffsets.toList =
      (List.range (nrows + 1)).map fun i => sorted.toList.countP fun x => x.1 < i := by
  simp [ofSorted]

theorem offset_ofSorted {i : Nat} (hi : i ≤ nrows) :
    (ofSorted nrows ncols sorted).offset i = sorted.toList.countP fun x => x.1 < i := by
  rw [offset, Array.getD_eq_getD_getElem?, ← Array.getElem?_toList, offsets_ofSorted,
    List.getElem?_map, List.getElem?_range (by omega)]
  rfl

theorem rowCols_ofSorted (hrows : sorted.toList.Pairwise fun x y => x.1 ≤ y.1) {r : Nat}
    (hr : r < nrows) :
    ((ofSorted nrows ncols sorted).rowCols r).toList =
      (sorted.toList.filter fun x => x.1 == r).map (·.2) := by
  have hcols : (ofSorted nrows ncols sorted).colIndices = sorted.map (·.2) := rfl
  simp only [rowCols, rowRange_eq]
  rw [Array.toList_extract, List.extract_eq_take_drop, hcols, Array.toList_map, ← List.map_drop,
    ← List.map_take, offset_ofSorted (by omega), offset_ofSorted (by omega), countP_lt_succ,
    Nat.add_sub_cancel_left, take_drop_countP r _ hrows]

@[simp] theorem nrows_ofSorted : (ofSorted nrows ncols sorted).nrows = nrows := rfl

@[simp] theorem ncols_ofSorted : (ofSorted nrows ncols sorted).ncols = ncols := rfl

theorem pairwise_rows (hsorted : sorted.toList.Pairwise fun a b => posLt a b = true) :
    sorted.toList.Pairwise fun x y => x.1 ≤ y.1 :=
  hsorted.imp fun h => by rw [posLt_iff] at h; omega

variable (hsorted : sorted.toList.Pairwise fun a b => posLt a b = true)
  (hin : ∀ x ∈ sorted.toList, x.1 < nrows ∧ x.2 < ncols)
include hsorted hin

theorem valid_ofSorted : (ofSorted nrows ncols sorted).Valid where
  size_offsets := by rw [← Array.length_toList, offsets_ofSorted]; simp [ofSorted]
  offset_zero := by rw [offset_ofSorted (Nat.zero_le _)]; simp
  offset_nrows := by
    rw [nrows_ofSorted, offset_ofSorted (Nat.le_refl _), List.countP_eq_length.2 fun x hx => by simp [(hin x hx).1]]
    simp [ofSorted, nnz]
  offset_le_succ i hi := by
    rw [nrows_ofSorted] at hi
    rw [offset_ofSorted (by omega), offset_ofSorted (by omega), countP_lt_succ]
    omega
  sorted i hi := by
    rw [nrows_ofSorted] at hi
    rw [rowCols_ofSorted (pairwise_rows hsorted) hi, List.pairwise_map, List.pairwise_filter]
    exact hsorted.imp fun h hx hy => by
      simp only [beq_iff_eq] at hx hy
      rw [posLt_iff] at h
      omega
  col_lt i hi c hc := by
    rw [nrows_ofSorted] at hi
    rw [rowCols_ofSorted (pairwise_rows hsorted) hi] at hc
    obtain ⟨x, hx, rfl⟩ := List.mem_map.1 hc
    exact (hin x (List.mem_filter.1 hx).1).2

theorem stores_ofSorted (r c : Nat) :
    (ofSorted nrows ncols sorted).Stores r c ↔ (r, c) ∈ sorted.toList := by
  constructor
  · rintro ⟨hr, hc⟩
    rw [nrows_ofSorted] at hr
    rw [rowCols_ofSorted (pairwise_rows hsorted) hr] at hc
    obtain ⟨x, hx, rfl⟩ := List.mem_map.1 hc
    obtain ⟨hxS, hxr⟩ := List.mem_filter.1 hx
    rw [beq_iff_eq] at hxr
    rw [← hxr]
    exact hxS
  · intro h
    have hr : r < nrows := (hin _ h).1
    refine ⟨hr, ?_⟩
    rw [rowCols_ofSorted (pairwise_rows hsorted) hr]
    exact List.mem_map.2 ⟨(r, c), List.mem_filter.2 ⟨h, by simp⟩, rfl⟩

end OfSorted

section Pass

/-- What the pass over positions sorted by row holds after the positions `done`: neither room has
grown, the offsets close every row up to that of the last position at the count of the positions
above it, and the columns are those of `done`. -/
structure PassInv (nrows total : Nat) (done : List (Nat × Nat)) (s : CoordPass) : Prop where
  offsets_room : s.offsets.room = nrows + 1
  cols_room : s.cols.room = total
  row_le : s.row ≤ nrows
  offsets_eq : s.offsets.data.toList =
    (List.range (s.row + 1)).map fun r => done.countP fun x => x.1 < r
  cols_eq : s.cols.data.toList = done.map (·.2)
  rows_le : ∀ x ∈ done, x.1 ≤ s.row

theorem PassInv.size_offsets {nrows total : Nat} {done : List (Nat × Nat)} {s : CoordPass}
    (h : PassInv nrows total done s) : s.offsets.data.size = s.row + 1 := by
  rw [← Array.length_toList, h.offsets_eq, List.length_map, List.length_range]

theorem PassInv.size_cols {nrows total : Nat} {done : List (Nat × Nat)} {s : CoordPass}
    (h : PassInv nrows total done s) : s.cols.data.size = done.length := by
  rw [← Array.length_toList, h.cols_eq, List.length_map]

/-- Offsets that close the rows up to `row` extend to a later row `r'` by the count of all the
positions, when none of them lies below `row`. -/
theorem map_countP_range_extend {done : List (Nat × Nat)} {row r' : Nat} (hle : row ≤ r')
    (hrows : ∀ x ∈ done, x.1 ≤ row) :
    (List.range (row + 1)).map (fun r => done.countP fun x => x.1 < r) ++
        List.replicate (r' - row) done.length =
      (List.range (r' + 1)).map fun r => done.countP fun x => x.1 < r := by
  have hall : ∀ t, (done.countP fun x => x.1 < row + 1 + t) = done.length := fun t =>
    List.countP_eq_length.2 fun x hx => by have := hrows x hx; simp; omega
  rw [show r' + 1 = row + 1 + (r' - row) by omega]
  conv => rhs; rw [List.range_add, List.map_append, List.map_map]
  congr 1
  simp only [Function.comp_def, hall, List.map_const', List.length_range]

variable {nrows ncols total : Nat}

/-- One position inside the shape, in a row from the current one on, keeps the invariant. -/
theorem visit_inv {done : List (Nat × Nat)} {s : CoordPass} {x : Nat × Nat}
    (h : PassInv nrows total done s) (hx : x.1 < nrows ∧ x.2 < ncols) (hrow : s.row ≤ x.1)
    (hlen : done.length < total) :
    ∃ s', visit nrows ncols s x = .ok s' ∧ s'.row = x.1 ∧ PassInv nrows total (done ++ [x]) s' := by
  have hoff := WordVec.pushN_of_le s.cols.data.size (x.1 - s.row) s.offsets
    (by rw [h.size_offsets, h.offsets_room]; omega)
  have hcol := WordVec.push_of_lt x.2 (by rw [h.size_cols, h.cols_room]; exact hlen)
  refine ⟨⟨⟨s.offsets.data ++ Array.replicate (x.1 - s.row) s.cols.data.size, s.offsets.room⟩,
    ⟨s.cols.data.push x.2, s.cols.room⟩, s.row + (x.1 - s.row)⟩, ?_, by simp only; omega,
    h.offsets_room, h.cols_room, by simp only; omega, ?_, by simp [h.cols_eq], fun y hy => ?_⟩
  · simp only [visit, Violation.require, hx.1, hx.2, decide_true, Bool.and_self, if_true, hoff, hcol]
    rfl
  · -- the rows up to `x.1` are closed, and `x` lies in none of the rows above them
    simp only [Array.toList_append, Array.toList_replicate, h.offsets_eq, h.size_cols]
    rw [map_countP_range_extend hrow h.rows_le, show s.row + (x.1 - s.row) = x.1 by omega]
    refine List.map_congr_left fun r hr => ?_
    have hr' : ¬ x.1 < r := by simp at hr; omega
    simp [List.countP_append, hr']
  · dsimp only
    simp only [List.mem_append, List.mem_singleton] at hy
    rcases hy with hy | rfl
    · have := h.rows_le y hy
      omega
    · omega

/-- A pass over positions inside the shape, sorted by row from the current one on, runs to the
end and keeps the invariant. -/
theorem foldlM_visit_ok : ∀ (rest done : List (Nat × Nat)) (s : CoordPass),
    PassInv nrows total done s → rest.Pairwise (fun a b => a.1 ≤ b.1) →
    (∀ x ∈ rest, s.row ≤ x.1) → done.length + rest.length ≤ total →
    (∀ x ∈ rest, x.1 < nrows ∧ x.2 < ncols) →
    ∃ s', rest.foldlM (visit nrows ncols) s = .ok s' ∧ PassInv nrows total (done ++ rest) s'
  | [], done, s, h, _, _, _, _ => ⟨s, rfl, by simpa using h⟩
  | x :: rest, done, s, h, hsorted, hrow, hlen, hin => by
    obtain ⟨hx, hrest⟩ := List.pairwise_cons.1 hsorted
    obtain ⟨s', hs', hrow', h'⟩ := visit_inv h (hin x List.mem_cons_self) (hrow x List.mem_cons_self)
      (by simp at hlen; omega)
    obtain ⟨s'', hs'', h''⟩ := foldlM_visit_ok rest (done ++ [x]) s' h' hrest
      (fun y hy => hrow' ▸ hx y hy) (by simp at hlen ⊢; omega)
      (fun y hy => hin y (List.mem_cons_of_mem x hy))
    refine ⟨s'', ?_, by simpa using h''⟩
    rw [List.foldlM_cons, hs']
    exact hs''

/-- A pass that meets a position outside the shape stops there with the bounds message, before
any room can run out. -/
theorem foldlM_visit_error : ∀ (rest done : List (Nat × Nat)) (s : CoordPass),
    PassInv nrows total done s → rest.Pairwise (fun a b => a.1 ≤ b.1) →
    (∀ x ∈ rest, s.row ≤ x.1) → done.length + rest.length ≤ total →
    (∃ x ∈ rest, ¬(x.1 < nrows ∧ x.2 < ncols)) →
    rest.foldlM (visit nrows ncols) s = .error (.unmet "Coordinates must be in bounds")
  | [], _, _, _, _, _, _, hout => by simp at hout
  | x :: rest, done, s, h, hsorted, hrow, hlen, hout => by
    rw [List.foldlM_cons]
    by_cases hx : x.1 < nrows ∧ x.2 < ncols
    · obtain ⟨hle, hrest⟩ := List.pairwise_cons.1 hsorted
      obtain ⟨s', hs', hrow', h'⟩ := visit_inv h hx (hrow x List.mem_cons_self)
        (by simp at hlen; omega)
      rw [hs']
      refine foldlM_visit_error rest (done ++ [x]) s' h' hrest (fun y hy => hrow' ▸ hle y hy)
        (by simp at hlen ⊢; omega) ?_
      obtain ⟨y, hy, hyout⟩ := hout
      rcases List.mem_cons.1 hy with rfl | hy
      · exact absurd hx hyout
      · exact ⟨y, hy, hyout⟩
    · have hb : (decide (x.1 < nrows) && decide (x.2 < ncols)) = false := by
        simpa using hx
      simp only [visit, Violation.require, hb]
      rfl

end Pass

section Make

/-- A row whose columns are in range and strictly increasing, each after `prev`, passes. -/
theorem checkRow_eq_ok (ncols : Nat) : ∀ (l : List Nat) (prev : Option Nat),
    l.Pairwise (· < ·) → (∀ c ∈ l, c < ncols) → (∀ q ∈ prev, ∀ c ∈ l, q < c) →
    checkRow ncols l prev = .ok ()
  | [], _, _, _, _ => rfl
  | c :: rest, prev, hs, hlt, hprev => by
    obtain ⟨hc, hrest⟩ := List.pairwise_cons.1 hs
    have hcn : ¬ ncols ≤ c := Nat.not_le.2 (hlt c List.mem_cons_self)
    have ih := checkRow_eq_ok ncols rest (some c) hrest (fun d hd => hlt d (List.mem_cons_of_mem _ hd))
      (fun q hq d hd => by cases hq; exact hc d hd)
    cases prev with
    | none => simp [checkRow, hcn, ih]
    | some p =>
      have hpc : p < c := hprev p rfl c List.mem_cons_self
      simp [checkRow, hcn, ih, Nat.not_lt.2 (Nat.le_of_lt hpc), Nat.ne_of_lt hpc]

variable {p : SparsityPattern} (hp : p.Valid)
include hp

/-- The rows of a valid pattern pass the row checks. -/
theorem checkRows_eq_ok : ∀ k i, i + k = p.nrows →
    checkRows p.ncols p.rowOffsets p.colIndices k i = .ok ()
  | 0, _, _ => rfl
  | k + 1, i, hk => by
    have hi : i < p.nrows := by omega
    have hle : ¬ p.offset (i + 1) < p.offset i := Nat.not_lt.2 (hp.offset_le_succ i hi)
    have hend : ¬ p.colIndices.size < p.offset (i + 1) :=
      Nat.not_lt.2 (hp.offset_le_nnz (show i + 1 ≤ p.nrows by omega))
    have hrow := checkRow_eq_ok p.ncols (p.rowCols i).toList none (hp.sorted i hi)
      (hp.col_lt i hi) (by simp)
    have ih := checkRows_eq_ok k (i + 1) (by omega)
    simp only [rowCols, rowRange] at hrow
    simp only [checkRows, offset] at hle hend ⊢
    simp only [hle, hend, if_false, hrow, ih]
    rfl

/-- `make` accepts the offsets and columns of a valid pattern. -/
theorem make_eq_ok (hsize : p.nrows + 1 < Nat.pow 2 64) :
    make p.nrows p.ncols p.rowOffsets p.colIndices = .ok p := by
  have hcount : p.rowOffsets.size = (p.nrows + 1) % Nat.pow 2 64 := by
    rw [hp.size_offsets, Nat.mod_eq_of_lt hsize]
  have hfirst : p.rowOffsets.getD 0 0 = 0 := hp.offset_zero
  have hlast : p.rowOffsets.back? = some p.colIndices.size := by
    rw [Array.back?_eq_getElem?, hp.size_offsets, Nat.add_sub_cancel,
      Array.getElem?_eq_getElem (by rw [hp.size_offsets]; omega)]
    have h := hp.offset_nrows
    simp only [offset, Array.getD_eq_getD_getElem?, Array.getElem?_eq_getElem
      (show p.nrows < p.rowOffsets.size by rw [hp.size_offsets]; omega), Option.getD_some] at h
    rw [h]
    rfl
  simp [make, hcount, hfirst, hlast, checkRows_eq_ok hp p.nrows 0 (Nat.zero_add _), Functor.map,
    Except.map]

end Make

section Run

variable {nrows ncols : Nat} {coords : Array (Nat × Nat)}

/-- The sorted positions are distinct positions of the list, so there are no more of them. -/
theorem size_sortedPositions_le (coords : Array (Nat × Nat)) :
    (sortedPositions coords).size ≤ coords.size := by
  obtain ⟨hsorted, hmem⟩ := sortedPositions_spec coords
  have hnodup : (sortedPositions coords).toList.Nodup := hsorted.imp fun h hab => by
    subst hab
    rw [posLt_iff] at h
    omega
  simpa using List.Nodup.length_le_of_subset hnodup fun x hx => (hmem x).1 hx

/-- The pass before it starts: the first offset, and no column. -/
theorem passInv_start (total : Nat) :
    PassInv nrows total [] ⟨⟨#[0], nrows + 1⟩, ⟨#[], total⟩, 0⟩ :=
  ⟨rfl, rfl, Nat.zero_le _, rfl, rfl, by simp⟩

/-- With room for the offsets and the list, `ofCoordinates` is the pass over the sorted positions
from the first offset, the closing of the rows after the last position, and `make`. -/
theorem ofCoordinates_eq_pass (hcap : nrows + 1 < Nat.pow 2 60) (hlen : coords.size < Nat.pow 2 60) :
    ofCoordinates nrows ncols coords =
      ((sortedPositions coords).toList.foldlM (visit nrows ncols)
          ⟨⟨#[0], nrows + 1⟩, ⟨#[], (sortedPositions coords).size⟩, 0⟩ >>= fun s =>
        s.offsets.pushN s.cols.data.size (nrows + 1 - s.offsets.data.size) >>= fun offsets =>
          expectValid (make nrows ncols offsets.data s.cols.data)) := by
  have hwrap : (nrows + 1) % Nat.pow 2 64 = nrows + 1 :=
    Nat.mod_eq_of_lt (Nat.lt_trans hcap (by decide))
  have hsize := Nat.lt_of_le_of_lt (size_sortedPositions_le coords) hlen
  simp only [ofCoordinates, hwrap, WordVec.withRoom_of_lt hcap, WordVec.withRoom_of_lt hsize,
    ← Array.foldlM_toList]
  rfl

/-- Inside the shape and with room for the offsets, the pass builds the pattern of the sorted
positions, and `make` accepts it. -/
theorem ofCoordinates_eq_ofSorted (hcap : nrows + 1 < Nat.pow 2 60)
    (hlen : coords.size < Nat.pow 2 60) (hin : ∀ x ∈ coords.toList, x.1 < nrows ∧ x.2 < ncols) :
    ofCoordinates nrows ncols coords = .ok (ofSorted nrows ncols (sortedPositions coords)) := by
  rw [ofCoordinates_eq_pass hcap hlen]
  obtain ⟨hsorted, hmem⟩ := sortedPositions_spec coords
  generalize sortedPositions coords = sorted at hsorted hmem ⊢
  have hinS : ∀ x ∈ sorted.toList, x.1 < nrows ∧ x.2 < ncols := fun x hx => hin x ((hmem x).1 hx)
  obtain ⟨s, hs, h⟩ := foldlM_visit_ok sorted.toList [] _ (passInv_start sorted.size)
    (pairwise_rows hsorted) (fun _ _ => Nat.zero_le _) (by simp) hinS
  rw [List.nil_append] at h
  have hfill := WordVec.pushN_of_le s.cols.data.size (nrows + 1 - s.offsets.data.size) s.offsets
    (by rw [h.offsets_room, h.size_offsets]; have := h.row_le; omega)
  -- the offsets and columns of the pass are those of the sorted pattern
  have hoffs : s.offsets.data ++ Array.replicate (nrows + 1 - s.offsets.data.size)
      s.cols.data.size = (ofSorted nrows ncols sorted).rowOffsets := by
    apply Array.toList_inj.1
    rw [Array.toList_append, Array.toList_replicate, h.offsets_eq, h.size_cols, h.size_offsets,
      offsets_ofSorted, show nrows + 1 - (s.row + 1) = nrows - s.row by omega]
    simpa using map_countP_range_extend h.row_le h.rows_le
  have hcolsEq : s.cols.data = (ofSorted nrows ncols sorted).colIndices := by
    apply Array.toList_inj.1
    simp [h.cols_eq, ofSorted]
  have hmake : make nrows ncols (ofSorted nrows ncols sorted).rowOffsets
      (ofSorted nrows ncols sorted).colIndices = .ok (ofSorted nrows ncols sorted) :=
    make_eq_ok (valid_ofSorted hsorted hinS) (Nat.lt_trans hcap (by decide))
  simp only [bind, Except.bind, hs, hfill]
  rw [hoffs, hcolsEq, hmake]
  rfl

/-- The pattern of positions inside the shape, with room for the offsets: valid, and storing
exactly those positions. -/
theorem ofCoordinates_eq_ok (hcap : nrows + 1 < Nat.pow 2 60) (hlen : coords.size < Nat.pow 2 60)
    (hin : ∀ x ∈ coords.toList, x.1 < nrows ∧ x.2 < ncols) :
    ∃ p, ofCoordinates nrows ncols coords = .ok p ∧ p.nrows = nrows ∧ p.ncols = ncols ∧
      p.Valid ∧ ∀ r c, p.Stores r c ↔ (r, c) ∈ coords.toList := by
  obtain ⟨hsorted, hmem⟩ := sortedPositions_spec coords
  have hinS : ∀ x ∈ (sortedPositions coords).toList, x.1 < nrows ∧ x.2 < ncols :=
    fun x hx => hin x ((hmem x).1 hx)
  refine ⟨_, ofCoordinates_eq_ofSorted hcap hlen hin, rfl, rfl, valid_ofSorted hsorted hinS,
    fun r c => ?_⟩
  rw [stores_ofSorted hsorted hinS, hmem]

/-- With room for the offsets, a position outside the shape is refused with the bounds message:
the pass meets the first such position before any room runs out. -/
theorem ofCoordinates_out_of_bounds (hcap : nrows + 1 < Nat.pow 2 60)
    (hlen : coords.size < Nat.pow 2 60) (hout : ∃ x ∈ coords.toList, nrows ≤ x.1 ∨ ncols ≤ x.2) :
    ofCoordinates nrows ncols coords = .error (.unmet "Coordinates must be in bounds") := by
  obtain ⟨hsorted, hmem⟩ := sortedPositions_spec coords
  have houtS : ∃ x ∈ (sortedPositions coords).toList, ¬(x.1 < nrows ∧ x.2 < ncols) := by
    obtain ⟨x, hx, hxo⟩ := hout
    exact ⟨x, (hmem x).2 hx, by omega⟩
  rw [ofCoordinates_eq_pass hcap hlen, foldlM_visit_error _ [] _ (passInv_start _)
    (pairwise_rows hsorted) (fun _ _ => Nat.zero_le _) (by simp) houtS]
  rfl

/-- With room for the offsets, the bounds message is the only refusal, and it comes exactly when a
position lies outside the shape. -/
theorem ofCoordinates_refused_iff (hcap : nrows + 1 < Nat.pow 2 60)
    (hlen : coords.size < Nat.pow 2 60) :
    ofCoordinates nrows ncols coords = .error (.unmet "Coordinates must be in bounds") ↔
      ∃ x ∈ coords.toList, nrows ≤ x.1 ∨ ncols ≤ x.2 := by
  refine ⟨fun herr => Classical.byContradiction fun hnone => ?_,
    ofCoordinates_out_of_bounds hcap hlen⟩
  have hin : ∀ x ∈ coords.toList, x.1 < nrows ∧ x.2 < ncols := fun x hx =>
    ⟨Nat.lt_of_not_le fun h => hnone ⟨x, hx, .inl h⟩, Nat.lt_of_not_le fun h => hnone ⟨x, hx, .inr h⟩⟩
  rw [ofCoordinates_eq_ofSorted hcap hlen hin] at herr
  cases herr

end Run

end SparsityPattern

/-- Zeros on a valid pattern form a valid matrix of that pattern. -/
theorem Csr.zeros_valid {ρ : Type} [RealScalar ρ] {p : SparsityPattern} (hp : p.Valid) :
    (Csr.zeros p : Csr ρ).Valid ∧ ∀ v ∈ (Csr.zeros p : Csr ρ).values, v = Scalar.zero :=
  ⟨⟨hp, Array.size_replicate⟩, fun _ hv => (Array.mem_replicate.1 hv).2⟩

namespace SparsityPattern

/-- The pattern of positions is exact: with room for the offsets, a position outside the shape is
refused with the bounds message and nothing else is refused; otherwise the result is a valid
pattern of the shape (offsets from zero, never decreasing; each row's columns strictly increasing)
storing exactly the given positions, and zeros on it form a valid matrix of that pattern. -/
theorem ofCoordinates_exact {ρ : Type} [RealScalar ρ] {nrows ncols : Nat} (coords : Array (Nat × Nat))
    (hcap : nrows + 1 < Nat.pow 2 60) (hlen : coords.size < Nat.pow 2 60) :
    (ofCoordinates nrows ncols coords = .error (.unmet "Coordinates must be in bounds") ↔
      ∃ x ∈ coords.toList, nrows ≤ x.1 ∨ ncols ≤ x.2) ∧
    ((∀ x ∈ coords.toList, x.1 < nrows ∧ x.2 < ncols) →
      ∃ p, ofCoordinates nrows ncols coords = .ok p ∧ p.nrows = nrows ∧ p.ncols = ncols ∧ p.Valid ∧
        (∀ r c, p.Stores r c ↔ (r, c) ∈ coords.toList) ∧
        (Csr.zeros p : Csr ρ).pattern = p ∧ (Csr.zeros p : Csr ρ).Valid ∧
        ∀ v ∈ (Csr.zeros p : Csr ρ).values, v = Scalar.zero) := by
  refine ⟨ofCoordinates_refused_iff hcap hlen, fun hin => ?_⟩
  obtain ⟨p, hp, hrows, hcols, hvalid, hstores⟩ := ofCoordinates_eq_ok hcap hlen hin
  exact ⟨p, hp, hrows, hcols, hvalid, hstores, rfl, Csr.zeros_valid hvalid⟩

/-- The positions of the unsorted list with repeats from the documentation, on a 4 × 4 shape. -/
theorem ofCoordinates_exact_on_repeats :
    4 + 1 < Nat.pow 2 60 ∧ #[(2, 1), (0, 0), (2, 1), (0, 3), (0, 0), (2, 0)].size < Nat.pow 2 60 ∧
    (ofCoordinates 4 4 #[(2, 1), (0, 0), (2, 1), (0, 3), (0, 0), (2, 0)] =
        .error (.unmet "Coordinates must be in bounds") ↔
      ∃ x ∈ [(2, 1), (0, 0), (2, 1), (0, 3), (0, 0), (2, 0)], 4 ≤ x.1 ∨ 4 ≤ x.2) ∧
    ((∀ x ∈ [(2, 1), (0, 0), (2, 1), (0, 3), (0, 0), (2, 0)], x.1 < 4 ∧ x.2 < 4) →
      ∃ p, ofCoordinates 4 4 #[(2, 1), (0, 0), (2, 1), (0, 3), (0, 0), (2, 0)] = .ok p ∧
        p.nrows = 4 ∧ p.ncols = 4 ∧ p.Valid ∧
        (∀ r c, p.Stores r c ↔ (r, c) ∈ [(2, 1), (0, 0), (2, 1), (0, 3), (0, 0), (2, 0)]) ∧
        (Csr.zeros p : Csr Float).pattern = p ∧ (Csr.zeros p : Csr Float).Valid ∧
        ∀ v ∈ (Csr.zeros p : Csr Float).values, v = Scalar.zero) :=
  ⟨by decide, by decide, ofCoordinates_exact _ (by decide) (by decide)⟩

/-- Offsets for `2^60` rows do not fit in memory: their reservation panics before any position is
read, so a position outside the shape is not reported with the bounds message. -/
theorem ofCoordinates_capacity_first :
    (∃ x ∈ [((0 : Nat), (0 : Nat))], Nat.pow 2 60 - 1 ≤ x.1 ∨ 0 ≤ x.2) ∧
      ofCoordinates (Nat.pow 2 60 - 1) 0 #[(0, 0)] = .error (.unmet "capacity overflow") :=
  ⟨⟨(0, 0), List.mem_singleton_self _, .inr (Nat.le_refl 0)⟩, rfl⟩

end SparsityPattern

end MixedFem
