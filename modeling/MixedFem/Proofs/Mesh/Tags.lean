import MixedFem.Mesh.Tags

/-!
# Mesh tags: sorted indices and a right-biased union

`MeshTags.new` sorts and deduplicates its indices, and `MeshTags.merge` walks two entry lists
side by side. Read through `List.lookup`, an entry list is a finite map from indices to values;
on lists whose indices strictly increase the list is determined by that map
(`entries_eq_of_lookup`), and merging is the union of maps in which the second one wins. The
associativity of merging is that of `Option.or`.

* `MeshTags.Increasing l` : the indices of an entry list strictly increase;
* `MeshTags.Built t` : `t` is built by `new` and `merge`, the only ways to make tags;
* `increasing_sortIndices`, `increasing_mergeEntries` : both keep the indices increasing, so
  every built tag set has increasing indices (`Built.increasing`);
* `lookup_mergeEntries` : on increasing lists, a merged index has the second list's value, or
  else the first's;
* `mergeEntries_assoc`, `mergeEntries_self` : associativity and idempotence;
* `mem_find` : `find v` lists, in increasing order, the indices whose value is `v`;
* `meshTags_merge_laws` : all of it for tags built by `new` and `merge`.
-/

namespace MixedFem

namespace MeshTags

/-- The indices of an entry list strictly increase, so each index has one value. -/
def Increasing (l : List (Nat × Int32)) : Prop := l.Pairwise (·.1 < ·.1)

/-- The tags that `new` and `merge` build; the fields of tags are set by nothing else. -/
inductive Built : MeshTags → Prop
  | new (dim : EntityDim) (indices : List Nat) (value : Int32) : Built (MeshTags.new dim indices value)
  | merge {s t u : MeshTags} : Built s → Built t → s.merge t = .ok u → Built u

/-! ## Sorting the indices of `new` -/

theorem mem_insertSorted {x y : Nat} : ∀ {l : List Nat}, y ∈ insertSorted x l ↔ y = x ∨ y ∈ l
  | [] => by simp [insertSorted]
  | z :: l => by
    unfold insertSorted
    split
    · simp
    · split
      · subst_vars
        simp
      · rw [List.mem_cons, List.mem_cons, mem_insertSorted, or_left_comm]

theorem pairwise_insertSorted (x : Nat) :
    ∀ {l : List Nat}, l.Pairwise (· < ·) → (insertSorted x l).Pairwise (· < ·)
  | [], _ => List.pairwise_singleton _ _
  | z :: l, h => by
    obtain ⟨hz, hl⟩ := List.pairwise_cons.1 h
    unfold insertSorted
    split
    · -- `x` goes in front of `z`, below everything after it
      next hxz =>
      exact List.Pairwise.cons (fun w hw => (List.mem_cons.1 hw).elim (· ▸ hxz)
        fun hw => Nat.lt_trans hxz (hz w hw)) h
    · split
      · exact h
      · next hxz hne =>
        refine List.Pairwise.cons (fun w hw => ?_) (pairwise_insertSorted x hl)
        rcases mem_insertSorted.1 hw with rfl | hw
        · omega
        · exact hz w hw

/-- The indices of `new`, sorted and without repeats. -/
def sortIndices (indices : List Nat) : List Nat := indices.foldl (fun acc i => insertSorted i acc) []

theorem sortIndices_foldl : ∀ (l acc : List Nat), acc.Pairwise (· < ·) →
    (l.foldl (fun acc i => insertSorted i acc) acc).Pairwise (· < ·) ∧
      ∀ i, i ∈ l.foldl (fun acc i => insertSorted i acc) acc ↔ i ∈ acc ∨ i ∈ l
  | [], acc, h => ⟨h, by simp⟩
  | x :: l, acc, h => by
    obtain ⟨hp, hm⟩ := sortIndices_foldl l (insertSorted x acc) (pairwise_insertSorted x h)
    refine ⟨hp, fun i => ?_⟩
    rw [List.foldl_cons, hm, mem_insertSorted, List.mem_cons, or_assoc, or_left_comm]

theorem increasing_sortIndices (indices : List Nat) (value : Int32) :
    Increasing ((sortIndices indices).map (·, value)) :=
  List.pairwise_map.2 (sortIndices_foldl indices [] List.Pairwise.nil).1

theorem mem_sortIndices {indices : List Nat} {i : Nat} : i ∈ sortIndices indices ↔ i ∈ indices := by
  rw [sortIndices, (sortIndices_foldl indices [] List.Pairwise.nil).2]
  simp

theorem new_entries (dim : EntityDim) (indices : List Nat) (value : Int32) :
    (MeshTags.new dim indices value).entries = (sortIndices indices).map (·, value) := rfl

/-! ## Lookup on increasing lists -/

section Lookup

variable {l l' : List (Nat × Int32)} {i : Nat} {v : Int32}

theorem lookup_eq_none_of_lt (h : ∀ p ∈ l, i < p.1) : l.lookup i = none := by
  rw [List.lookup_eq_none_iff]
  intro p hp
  simpa using Nat.ne_of_lt (h p hp)

theorem lookup_cons_of_ne {x : Nat × Int32} (h : i ≠ x.1) : (x :: l).lookup i = l.lookup i := by
  obtain ⟨k, w⟩ := x
  simp only [List.lookup_cons, beq_false_of_ne h]

@[simp] theorem lookup_cons_fst (x : Nat × Int32) : (x :: l).lookup x.1 = some x.2 := by
  obtain ⟨k, w⟩ := x
  simp

theorem mem_of_lookup_eq_some (h : l.lookup i = some v) : (i, v) ∈ l := by
  obtain ⟨l₁, l₂, rfl, -⟩ := List.lookup_eq_some_iff.1 h
  simp

theorem lookup_eq_some_of_mem (hl : Increasing l) (h : (i, v) ∈ l) : l.lookup i = some v := by
  induction l with
  | nil => cases h
  | cons x l ih =>
    obtain ⟨hx, hl⟩ := List.pairwise_cons.1 hl
    rcases List.mem_cons.1 h with rfl | h
    · simp
    · rw [lookup_cons_of_ne (Nat.ne_of_gt (hx _ h)), ih hl h]

/-- An index has a value exactly when it is listed. -/
theorem mem_map_fst_iff_isSome : i ∈ l.map (·.1) ↔ (l.lookup i).isSome := by
  rw [List.lookup_isSome_iff, List.mem_map]
  simp only [beq_iff_eq]
  exact ⟨fun ⟨p, hp, h⟩ => ⟨p, hp, h.symm⟩, fun ⟨p, hp, h⟩ => ⟨p, hp, h.symm⟩⟩

/-- In an increasing list an index has one value. -/
theorem Increasing.unique (hl : Increasing l) {v v' : Int32} (h : (i, v) ∈ l) (h' : (i, v') ∈ l) :
    v = v' :=
  Option.some.inj ((lookup_eq_some_of_mem hl h).symm.trans (lookup_eq_some_of_mem hl h'))

/-- Increasing lists with the same lookup are equal: the least index of either is the least of
the other, with the same value. -/
theorem entries_eq_of_lookup : ∀ {l l' : List (Nat × Int32)}, Increasing l → Increasing l' →
    (∀ i, l.lookup i = l'.lookup i) → l = l'
  | [], [], _, _, _ => rfl
  | [], y :: _, _, _, h => by simpa using h y.1
  | x :: _, [], _, _, h => by simpa using h x.1
  | x :: xs, y :: ys, hl, hl', h => by
    obtain ⟨hx, hxs⟩ := List.pairwise_cons.1 hl
    obtain ⟨hy, hys⟩ := List.pairwise_cons.1 hl'
    have hkey : x.1 = y.1 := by
      rcases Nat.lt_trichotomy x.1 y.1 with hlt | heq | hgt
      · -- `x.1` is below every index of `y :: ys`
        have := h x.1
        rw [lookup_cons_fst, lookup_eq_none_of_lt (fun p hp => (List.mem_cons.1 hp).elim
          (· ▸ hlt) fun hp => Nat.lt_trans hlt (hy p hp))] at this
        cases this
      · exact heq
      · have := h y.1
        rw [lookup_cons_fst, lookup_eq_none_of_lt (l := x :: xs) (fun p hp =>
          (List.mem_cons.1 hp).elim (· ▸ hgt) fun hp => Nat.lt_trans hgt (hx p hp))] at this
        cases this
    have hval : x.2 = y.2 := by
      have := h x.1
      rw [lookup_cons_fst, hkey, lookup_cons_fst] at this
      exact Option.some.inj this
    have htail : ∀ i, xs.lookup i = ys.lookup i := fun i => by
      by_cases hi : i = x.1
      · rw [lookup_eq_none_of_lt (fun p hp => hi ▸ hx p hp),
          lookup_eq_none_of_lt (fun p hp => hi ▸ hkey ▸ hy p hp)]
      · have := h i
        rwa [lookup_cons_of_ne hi, lookup_cons_of_ne (hkey ▸ hi)] at this
    rw [Prod.ext hkey hval, entries_eq_of_lookup hxs hys htail]

end Lookup

/-! ## Merging entry lists -/

section Merge

variable {xs ys zs : List (Nat × Int32)}

/-- A merged entry comes from one of the two lists. -/
theorem mem_mergeEntries {e : Nat × Int32} (h : e ∈ mergeEntries xs ys) : e ∈ xs ∨ e ∈ ys := by
  fun_induction mergeEntries xs ys with
  | case1 ys => exact .inr h
  | case2 xs => exact .inl h
  | case3 x xs y ys _ ih =>
    rcases List.mem_cons.1 h with rfl | h
    · simp
    · rcases ih h with h | h <;> simp [h]
  | case4 x xs y ys _ _ ih =>
    rcases List.mem_cons.1 h with rfl | h
    · simp
    · rcases ih h with h | h <;> simp [h]
  | case5 x xs y ys _ _ ih =>
    rcases List.mem_cons.1 h with rfl | h
    · simp
    · rcases ih h with h | h <;> simp [h]

/-- Merging keeps the indices increasing: each step emits the least index still to come. -/
theorem increasing_mergeEntries (hx : Increasing xs) (hy : Increasing ys) :
    Increasing (mergeEntries xs ys) := by
  fun_induction mergeEntries xs ys with
  | case1 ys => exact hy
  | case2 xs => exact hx
  | case3 x xs y ys hlt ih =>
    obtain ⟨hx₁, hx₂⟩ := List.pairwise_cons.1 hx
    obtain ⟨hy₁, -⟩ := List.pairwise_cons.1 hy
    refine List.Pairwise.cons (fun e he => ?_) (ih hx₂ hy)
    rcases mem_mergeEntries he with he | he
    · exact hx₁ e he
    · rcases List.mem_cons.1 he with rfl | he
      · exact hlt
      · exact Nat.lt_trans hlt (hy₁ e he)
  | case4 x xs y ys _ hgt ih =>
    obtain ⟨hx₁, -⟩ := List.pairwise_cons.1 hx
    obtain ⟨hy₁, hy₂⟩ := List.pairwise_cons.1 hy
    refine List.Pairwise.cons (fun e he => ?_) (ih hx hy₂)
    rcases mem_mergeEntries he with he | he
    · rcases List.mem_cons.1 he with rfl | he
      · exact hgt
      · exact Nat.lt_trans hgt (hx₁ e he)
    · exact hy₁ e he
  | case5 x xs y ys hlt hgt ih =>
    obtain ⟨hx₁, hx₂⟩ := List.pairwise_cons.1 hx
    obtain ⟨hy₁, hy₂⟩ := List.pairwise_cons.1 hy
    have hkey : x.1 = y.1 := by omega
    refine List.Pairwise.cons (fun e he => ?_) (ih hx₂ hy₂)
    rcases mem_mergeEntries he with he | he
    · exact hkey ▸ hx₁ e he
    · exact hy₁ e he

/-- On increasing lists, a merged index has its value in the second list if it has one there,
and its value in the first otherwise. -/
theorem lookup_mergeEntries (hx : Increasing xs) (hy : Increasing ys) (i : Nat) :
    (mergeEntries xs ys).lookup i = (ys.lookup i).or (xs.lookup i) := by
  fun_induction mergeEntries xs ys with
  | case1 ys => simp
  | case2 xs => simp
  | case3 x xs y ys hlt ih =>
    obtain ⟨hx₁, hx₂⟩ := List.pairwise_cons.1 hx
    obtain ⟨hy₁, -⟩ := List.pairwise_cons.1 hy
    by_cases hi : i = x.1
    · -- `x.1` is below every index of `y :: ys`
      rw [lookup_eq_none_of_lt (l := y :: ys) (fun p hp => (List.mem_cons.1 hp).elim
        (fun h => h ▸ hi ▸ hlt) fun hp => hi ▸ Nat.lt_trans hlt (hy₁ p hp))]
      subst hi
      simp
    · rw [lookup_cons_of_ne hi, lookup_cons_of_ne hi, ih hx₂ hy]
  | case4 x xs y ys _ hgt ih =>
    obtain ⟨hx₁, -⟩ := List.pairwise_cons.1 hx
    obtain ⟨-, hy₂⟩ := List.pairwise_cons.1 hy
    by_cases hi : i = y.1
    · subst hi
      simp
    · rw [lookup_cons_of_ne hi, lookup_cons_of_ne hi, ih hx hy₂]
  | case5 x xs y ys hlt hgt ih =>
    obtain ⟨hx₁, hx₂⟩ := List.pairwise_cons.1 hx
    obtain ⟨hy₁, hy₂⟩ := List.pairwise_cons.1 hy
    have hkey : x.1 = y.1 := by omega
    by_cases hi : i = y.1
    · subst hi
      simp
    · rw [lookup_cons_of_ne hi, lookup_cons_of_ne hi, lookup_cons_of_ne (hkey ▸ hi), ih hx₂ hy₂]

/-- Merging is associative on increasing lists: both sides are increasing, with one lookup. -/
theorem mergeEntries_assoc (hx : Increasing xs) (hy : Increasing ys) (hz : Increasing zs) :
    mergeEntries (mergeEntries xs ys) zs = mergeEntries xs (mergeEntries ys zs) := by
  refine entries_eq_of_lookup (increasing_mergeEntries (increasing_mergeEntries hx hy) hz)
    (increasing_mergeEntries hx (increasing_mergeEntries hy hz)) fun i => ?_
  rw [lookup_mergeEntries (increasing_mergeEntries hx hy) hz, lookup_mergeEntries hx hy,
    lookup_mergeEntries hx (increasing_mergeEntries hy hz), lookup_mergeEntries hy hz,
    Option.or_assoc]

theorem mergeEntries_self : ∀ l : List (Nat × Int32), mergeEntries l l = l
  | [] => by simp [mergeEntries]
  | x :: l => by simp [mergeEntries, mergeEntries_self l]

end Merge

/-! ## Tags -/

theorem merge_eq_ok {s t : MeshTags} (h : s.dim = t.dim) :
    s.merge t = .ok ⟨s.dim, mergeEntries s.entries t.entries⟩ := if_pos h

theorem merge_of_ne {s t : MeshTags} (h : s.dim ≠ t.dim) :
    s.merge t = .error (.unequal "Cannot merge tags of different dimensions") := if_neg h

theorem Built.increasing {t : MeshTags} (h : t.Built) : Increasing t.entries := by
  induction h with
  | new dim indices value => exact increasing_sortIndices indices value
  | @merge s t u _ _ hm hs ht =>
    by_cases hdim : s.dim = t.dim
    · rw [merge_eq_ok hdim] at hm
      cases hm
      exact increasing_mergeEntries hs ht
    · rw [merge_of_ne hdim] at hm
      cases hm

/-- Merging three tag sets either way gives one result, the same refusal included. -/
theorem merge_assoc {s t u : MeshTags} (hs : Increasing s.entries) (ht : Increasing t.entries)
    (hu : Increasing u.entries) : (s.merge t).bind (·.merge u) = (t.merge u).bind s.merge := by
  by_cases hst : s.dim = t.dim <;> by_cases htu : t.dim = u.dim
  · simp [merge, hst, htu, mergeEntries_assoc hs ht hu, Except.bind]
  · simp [merge, hst, htu, Except.bind]
  · -- the first two differ, and the third is the second's
    have hsu : s.dim ≠ u.dim := htu ▸ hst
    simp [merge, htu, hsu, Except.bind]
  · simp [merge, hst, htu, Except.bind]

/-- `find v` lists, in increasing order, the indices whose value is `v`. -/
theorem mem_find {t : MeshTags} (ht : Increasing t.entries) (v : Int32) :
    (t.find v).Pairwise (· < ·) ∧ ∀ i, i ∈ t.find v ↔ t.entries.lookup i = some v := by
  refine ⟨List.pairwise_map.2 (ht.filter _), fun i => ⟨fun h => ?_, fun h => ?_⟩⟩
  · obtain ⟨⟨k, w⟩, hf, rfl⟩ := List.mem_map.1 h
    obtain ⟨he, hv⟩ := List.mem_filter.1 hf
    obtain rfl : w = v := beq_iff_eq.1 hv
    exact lookup_eq_some_of_mem ht he
  · exact List.mem_map.2 ⟨(i, v), List.mem_filter.2 ⟨mem_of_lookup_eq_some h, by simp⟩, rfl⟩

/-- Tags built by `new` and `merge` have strictly increasing indices, one value each. Merging two
of one dimension tags the union of their indices, each with the value of the second tags if
they have one and of the first otherwise; merging is associative, the refusal of different
dimensions included, and merging tags with themselves gives them back; `find v` lists, in
increasing order, the indices whose value is `v`. -/
theorem meshTags_merge_laws (s t u : MeshTags) (hs : s.Built) (ht : t.Built) (hu : u.Built)
    (v : Int32) :
    s.indices.Pairwise (· < ·) ∧ (∀ i w w', (i, w) ∈ s.entries → (i, w') ∈ s.entries → w = w') ∧
    (s.dim = t.dim → ∃ m, s.merge t = .ok m ∧ m.dim = s.dim ∧
      (∀ i, i ∈ m.indices ↔ i ∈ s.indices ∨ i ∈ t.indices) ∧
      ∀ i, m.entries.lookup i = (t.entries.lookup i).or (s.entries.lookup i)) ∧
    (s.merge t).bind (·.merge u) = (t.merge u).bind s.merge ∧
    s.merge s = .ok s ∧
    (s.find v).Pairwise (· < ·) ∧ ∀ i, i ∈ s.find v ↔ s.entries.lookup i = some v := by
  have hs' := hs.increasing
  have ht' := ht.increasing
  refine ⟨List.pairwise_map.2 hs', fun i w w' h h' => hs'.unique h h', fun hdim => ?_,
    merge_assoc hs' ht' hu.increasing, ?_, mem_find hs' v⟩
  · refine ⟨_, merge_eq_ok hdim, rfl, fun i => ?_, lookup_mergeEntries hs' ht'⟩
    simp only [indices, mem_map_fst_iff_isSome, lookup_mergeEntries hs' ht', Option.isSome_or]
    exact Bool.or_eq_true_iff.trans (or_comm ..)
  · rw [merge_eq_ok rfl, mergeEntries_self]

/-- The tags of the facet test: `5, 1, 3, 1` tagged `2`, merged with `3, 4` tagged `7`. -/
theorem meshTags_merge_laws_on_test :
    (MeshTags.new .facet [5, 1, 3, 1] 2).Built ∧ (MeshTags.new .facet [3, 4] 7).Built ∧
    (MeshTags.new .cell [0] 1).Built ∧
    (MeshTags.new .facet [5, 1, 3, 1] 2).indices.Pairwise (· < ·) ∧
    (∀ i w w', (i, w) ∈ (MeshTags.new .facet [5, 1, 3, 1] 2).entries →
      (i, w') ∈ (MeshTags.new .facet [5, 1, 3, 1] 2).entries → w = w') ∧
    ((MeshTags.new .facet [5, 1, 3, 1] 2).dim = (MeshTags.new .facet [3, 4] 7).dim →
      ∃ m, (MeshTags.new .facet [5, 1, 3, 1] 2).merge (MeshTags.new .facet [3, 4] 7) = .ok m ∧
        m.dim = (MeshTags.new .facet [5, 1, 3, 1] 2).dim ∧
        (∀ i, i ∈ m.indices ↔ i ∈ (MeshTags.new .facet [5, 1, 3, 1] 2).indices ∨
          i ∈ (MeshTags.new .facet [3, 4] 7).indices) ∧
        ∀ i, m.entries.lookup i = ((MeshTags.new .facet [3, 4] 7).entries.lookup i).or
          ((MeshTags.new .facet [5, 1, 3, 1] 2).entries.lookup i)) ∧
    ((MeshTags.new .facet [5, 1, 3, 1] 2).merge (MeshTags.new .facet [3, 4] 7)).bind
        (·.merge (MeshTags.new .cell [0] 1)) =
      ((MeshTags.new .facet [3, 4] 7).merge (MeshTags.new .cell [0] 1)).bind
        (MeshTags.new .facet [5, 1, 3, 1] 2).merge ∧
    (MeshTags.new .facet [5, 1, 3, 1] 2).merge (MeshTags.new .facet [5, 1, 3, 1] 2) =
      .ok (MeshTags.new .facet [5, 1, 3, 1] 2) ∧
    ((MeshTags.new .facet [5, 1, 3, 1] 2).find 2).Pairwise (· < ·) ∧
    ∀ i, i ∈ (MeshTags.new .facet [5, 1, 3, 1] 2).find 2 ↔
      (MeshTags.new .facet [5, 1, 3, 1] 2).entries.lookup i = some 2 :=
  ⟨.new _ _ _, .new _ _ _, .new _ _ _, meshTags_merge_laws _ _ _ (.new _ _ _) (.new _ _ _)
    (.new _ _ _) 2⟩

end MeshTags

end MixedFem
