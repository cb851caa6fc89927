import Mathlib.Data.List.Nodup
import MixedFem.Parameters.Read

/-!
# Collections of parameters as ordered maps

A collection is a list of entries, looked up at the first entry of a key. Read through `get?`
and `keys`, `add` and `set` are the writes of an insertion-ordered map: `add` appends a key
that is absent and refuses one that is present, `set` replaces the first entry of its key in
place or appends. These laws hold of every collection. That the keys of a collection are
distinct at every level of nesting is an invariant of the edits, provided the values they bring
in are themselves well keyed; JSON loading builds the entries as the text lists them and checks
nothing, so a text with a key twice loads with the key twice.

* `ParameterValue.WellKeyed`, `Parameters.WellKeyed` : the keys of every nested collection are
  distinct;
* `Parameters.add_eq_ok_iff`, `add_eq_error_iff`, `get?_add`, `keys_add`, `get?_set`,
  `keys_set` : the two writes;
* `Parameters.nested_eq_ok_iff`, `Parameters.Selects`, `typedValue_eq_missingKey_iff`,
  `typedValue_eq_typeMismatch_iff` : the typed getters;
* `Parameters.Edit`, `Edit.apply`, `Edit.run` : the edits a user makes, at the top or through
  the nested collection of a key, and runs of them in which an edit that fails changes nothing;
* `Edit.apply_wellKeyed`, `Edit.run_wellKeyed` : the invariant, one edit and a whole run;
  `Edit.run_wellKeyed_iff` : every run keeps it exactly when the collection it starts from has it;
* `Edit.run_add_of_mem`, `get?_apply_of_ne`, `get?_run_last_write`, `keys_apply` : what a run
  keeps;
* `Parameters.OrderedMapLaws`, `Parameters.mapLaws` : the map laws;
  `Parameters.orderedMapLaws` : all of it;
* `Parameters.fromJsonText_repeats_key` : a loaded collection with a key twice.
-/

namespace MixedFem

namespace ParameterValue

mutual

/-- The keys of every collection nested in a value are distinct, at every level. -/
def WellKeyed : ParameterValue → Prop
  | .nested _ es => (es.map Prod.fst).Nodup ∧ EntriesWellKeyed es
  | _ => True

/-- Every value of the entries is well keyed. -/
def EntriesWellKeyed : List (String × ParameterValue) → Prop
  | [] => True
  | (_, v) :: es => WellKeyed v ∧ EntriesWellKeyed es

end

theorem entriesWellKeyed_iff {es : List (String × ParameterValue)} :
    EntriesWellKeyed es ↔ ∀ e ∈ es, e.2.WellKeyed := by
  induction es with
  | nil => simp [EntriesWellKeyed]
  | cons e es ih =>
    obtain ⟨k, v⟩ := e
    simp [EntriesWellKeyed, ih]

@[simp] theorem wellKeyed_nested {n : String} {es : List (String × ParameterValue)} :
    (nested n es).WellKeyed ↔ (es.map Prod.fst).Nodup ∧ ∀ e ∈ es, e.2.WellKeyed := by
  rw [WellKeyed, entriesWellKeyed_iff]

end ParameterValue

namespace Parameters

/-- The keys of the collection are distinct, and so are those of every collection nested in
it, at every level. -/
def WellKeyed (p : Parameters) : Prop := (ParameterValue.ofParameters p).WellKeyed

theorem keys_eq (p : Parameters) : p.keys = p.entries.map Prod.fst := rfl

theorem wellKeyed_iff {p : Parameters} :
    p.WellKeyed ↔ p.keys.Nodup ∧ ∀ e ∈ p.entries, e.2.WellKeyed :=
  ParameterValue.wellKeyed_nested

theorem new_wellKeyed (name : String) : (new name).WellKeyed := by
  simp [wellKeyed_iff, new, keys]

section Lookup

variable {n : String} {es : List (String × ParameterValue)} {k j : String}
  {v w : ParameterValue}

@[simp] theorem get?_nil : (⟨n, []⟩ : Parameters).get? j = none := rfl

theorem get?_cons : (⟨n, (k, w) :: es⟩ : Parameters).get? j =
    if k = j then some w else (⟨n, es⟩ : Parameters).get? j := by
  by_cases h : k = j <;> simp [get?, h]

theorem contains_iff_mem_keys {p : Parameters} : p.contains k ↔ k ∈ p.keys := by
  obtain ⟨n, es⟩ := p
  induction es with
  | nil => simp [contains, keys]
  | cons e es ih =>
    obtain ⟨k', w⟩ := e
    by_cases h : k' = k
    · simp [contains, get?_cons, h, keys]
    · simp only [contains, keys] at ih
      simp [contains, get?_cons, h, keys, ih, Ne.symm h]

/-- The value `get?` finds is the value of an entry of the key. -/
theorem mem_of_get? {p : Parameters} (h : p.get? k = some v) : (k, v) ∈ p.entries := by
  obtain ⟨n, es⟩ := p
  induction es with
  | nil => simp at h
  | cons e es ih =>
    obtain ⟨k', w⟩ := e
    rw [get?_cons] at h
    split_ifs at h with hk
    · cases h
      subst hk
      exact List.mem_cons_self
    · exact List.mem_cons_of_mem _ (ih h)

/-- `replaceFirst` keeps the keys, in order. -/
@[simp] theorem map_fst_replaceFirst : (replaceFirst k v es).map Prod.fst = es.map Prod.fst := by
  induction es with
  | nil => rfl
  | cons e es ih =>
    obtain ⟨k', w⟩ := e
    by_cases h : k' = k <;> simp [replaceFirst, h, ih]

theorem mem_replaceFirst {e : String × ParameterValue} (h : e ∈ replaceFirst k v es) :
    e ∈ es ∨ e = (k, v) := by
  induction es with
  | nil => simp [replaceFirst] at h
  | cons e' es ih =>
    obtain ⟨k', w⟩ := e'
    by_cases hk : k' = k
    · simp only [replaceFirst, hk, beq_self_eq_true, if_true, List.mem_cons] at h
      rcases h with rfl | h
      · exact Or.inr rfl
      · exact Or.inl (List.mem_cons_of_mem _ h)
    · simp only [replaceFirst, beq_iff_eq, hk, if_false, List.mem_cons] at h
      rcases h with rfl | h
      · exact Or.inl List.mem_cons_self
      · exact (ih h).imp_left (List.mem_cons_of_mem _)

theorem get?_replaceFirst_of_ne (hj : j ≠ k) :
    (⟨n, replaceFirst k v es⟩ : Parameters).get? j = (⟨n, es⟩ : Parameters).get? j := by
  induction es with
  | nil => rfl
  | cons e es ih =>
    obtain ⟨k', w⟩ := e
    by_cases hk : k' = k
    · subst hk
      simp [replaceFirst, get?_cons, Ne.symm hj]
    · simp only [replaceFirst, beq_iff_eq, hk, if_false, get?_cons, ih]

theorem get?_replaceFirst_self (h : (⟨n, es⟩ : Parameters).contains k) :
    (⟨n, replaceFirst k v es⟩ : Parameters).get? k = some v := by
  induction es with
  | nil => simp [contains] at h
  | cons e es ih =>
    obtain ⟨k', w⟩ := e
    by_cases hk : k' = k
    · subst hk
      simp [replaceFirst, get?_cons]
    · simp only [contains, get?_cons, hk, if_false] at h
      simp only [replaceFirst, beq_iff_eq, hk, if_false, get?_cons, ih h]

theorem get?_append_of_ne (hj : j ≠ k) :
    (⟨n, es ++ [(k, v)]⟩ : Parameters).get? j = (⟨n, es⟩ : Parameters).get? j := by
  induction es with
  | nil => simp [get?_cons, Ne.symm hj]
  | cons e es ih =>
    obtain ⟨k', w⟩ := e
    simp only [List.cons_append, get?_cons, ih]

theorem get?_append_self (h : (⟨n, es⟩ : Parameters).contains k = false) :
    (⟨n, es ++ [(k, v)]⟩ : Parameters).get? k = some v := by
  induction es with
  | nil => simp [get?_cons]
  | cons e es ih =>
    obtain ⟨k', w⟩ := e
    by_cases hk : k' = k
    · subst hk
      simp [contains, get?_cons] at h
    · simp only [contains, get?_cons, hk, if_false] at h
      simp only [List.cons_append, get?_cons, hk, if_false, ih h]

end Lookup

section Writes

variable (p : Parameters) (k : String) (v : ParameterValue)

/-- `add` succeeds exactly on an absent key, and appends it with its value. -/
theorem add_eq_ok_iff {p' : Parameters} :
    p.add k v = .ok p' ↔ k ∉ p.keys ∧ p' = ⟨p.name, p.entries ++ [(k, v)]⟩ := by
  rw [← contains_iff_mem_keys]
  unfold add
  by_cases h : p.contains k <;> simp [h, eq_comm]

/-- `add` refuses a present key with `DuplicateKey`. -/
theorem add_eq_error_iff : p.add k v = .error (.duplicateKey k) ↔ k ∈ p.keys := by
  rw [← contains_iff_mem_keys]
  unfold add
  by_cases h : p.contains k <;> simp [h]

/-- `add` refuses a present key with `DuplicateKey`; an absent key it appends, with its value,
and every other key keeps its value. -/
theorem get?_add :
    (k ∈ p.keys ∧ p.add k v = .error (.duplicateKey k)) ∨
      (k ∉ p.keys ∧ ∃ p', p.add k v = .ok p' ∧ p'.get? k = some v ∧
        ∀ j ≠ k, p'.get? j = p.get? j) := by
  by_cases hk : k ∈ p.keys
  · exact Or.inl ⟨hk, (add_eq_error_iff p k v).2 hk⟩
  · exact Or.inr ⟨hk, _, (add_eq_ok_iff p k v).2 ⟨hk, rfl⟩,
      get?_append_self (Bool.eq_false_iff.2 (mt contains_iff_mem_keys.1 hk)),
      fun j hj => get?_append_of_ne hj⟩

theorem keys_add {p' : Parameters} (h : p.add k v = .ok p') : p'.keys = p.keys ++ [k] := by
  obtain ⟨-, rfl⟩ := (add_eq_ok_iff p k v).1 h
  simp [keys]

/-- `set` gives the key its value and every other key keeps its value. -/
theorem get?_set : (p.set k v).get? k = some v ∧ ∀ j ≠ k, (p.set k v).get? j = p.get? j := by
  unfold set
  split_ifs with h
  · exact ⟨get?_replaceFirst_self h, fun j hj => get?_replaceFirst_of_ne hj⟩
  · exact ⟨get?_append_self (by simpa using h), fun j hj => get?_append_of_ne hj⟩

/-- `set` keeps the position of a present key and appends an absent one. -/
theorem keys_set : (p.set k v).keys = if k ∈ p.keys then p.keys else p.keys ++ [k] := by
  by_cases h : p.contains k
  · rw [if_pos (contains_iff_mem_keys.1 h)]
    simp [set, h, keys_eq]
  · rw [if_neg (mt contains_iff_mem_keys.2 h)]
    simp [set, h, keys]

/-- `add` keeps the keys distinct at every level when the value it brings is well keyed. -/
theorem add_wellKeyed {p p' : Parameters} {k : String} {v : ParameterValue} (hp : p.WellKeyed)
    (hv : v.WellKeyed) (h : p.add k v = .ok p') : p'.WellKeyed := by
  have hkeys := keys_add p k v h
  obtain ⟨hk, rfl⟩ := (add_eq_ok_iff p k v).1 h
  -- the new key differs from every old one
  have hdisj : ∀ a ∈ p.keys, ∀ b ∈ [k], a ≠ b := by
    intro a ha b hb hab
    rw [List.mem_singleton] at hb
    subst hb hab
    exact hk ha
  rw [wellKeyed_iff] at hp ⊢
  rw [hkeys, List.nodup_append]
  refine ⟨⟨hp.1, List.nodup_singleton k, hdisj⟩, fun e he => ?_⟩
  rcases List.mem_append.1 he with he | he
  · exact hp.2 e he
  · rw [List.mem_singleton.1 he]
    exact hv

/-- Replacing the value of a key keeps the keys distinct at every level when the new value is
well keyed. -/
theorem replaceFirst_wellKeyed {p : Parameters} {k : String} {v : ParameterValue}
    (hp : p.WellKeyed) (hv : v.WellKeyed) : (⟨p.name, replaceFirst k v p.entries⟩ : Parameters).WellKeyed := by
  rw [wellKeyed_iff] at hp ⊢
  refine ⟨by simpa [keys_eq] using hp.1, fun e he => ?_⟩
  rcases mem_replaceFirst he with he | rfl
  · exact hp.2 e he
  · exact hv

theorem set_wellKeyed {p : Parameters} {k : String} {v : ParameterValue} (hp : p.WellKeyed)
    (hv : v.WellKeyed) : (p.set k v).WellKeyed := by
  unfold set
  split_ifs with h
  · exact replaceFirst_wellKeyed hp hv
  · exact add_wellKeyed hp hv ((add_eq_ok_iff p k v).2 ⟨mt contains_iff_mem_keys.2 h, rfl⟩)

end Writes

section Typed

/-- `nested` gives exactly the collection stored at the key. -/
theorem nested_eq_ok_iff {p q : Parameters} {k : String} :
    p.nested k = .ok q ↔ p.get? k = some (.ofParameters q) := by
  unfold nested typedValue value
  cases h : p.get? k with
  | none => simp [bind, Except.bind]
  | some v =>
    cases v <;> simp [ParameterValue.asParameters?, ParameterValue.ofParameters, bind,
      Except.bind, pure, Except.pure, throw, throwThe, MonadExceptOf.throw]
    constructor
    · rintro rfl
      exact ⟨rfl, rfl⟩
    · rintro ⟨rfl, rfl⟩
      rfl

/-- `select` gives a payload exactly for the variant named `expected`. -/
def Selects {α : Type} (expected : String) (select : ParameterValue → Option α) : Prop :=
  ∀ v, (select v).isSome ↔ v.typeName = expected

theorem selects_bool : Selects "bool" ParameterValue.asBool? := by
  intro v
  cases v <;> simp [ParameterValue.asBool?, ParameterValue.typeName]

theorem selects_int : Selects "int" ParameterValue.asInt? := by
  intro v
  cases v <;> simp [ParameterValue.asInt?, ParameterValue.typeName]

theorem selects_real : Selects "real" ParameterValue.asReal? := by
  intro v
  cases v <;> simp [ParameterValue.asReal?, ParameterValue.typeName]

theorem selects_str : Selects "string" ParameterValue.asStr? := by
  intro v
  cases v <;> simp [ParameterValue.asStr?, ParameterValue.typeName]

theorem selects_parameters : Selects "parameters" ParameterValue.asParameters? := by
  intro v
  cases v <;> simp [ParameterValue.asParameters?, ParameterValue.typeName]

variable {α : Type} (p : Parameters) (k expected : String) (select : ParameterValue → Option α)

theorem typedValue_eq_missingKey_iff :
    p.typedValue k expected select = .error (.missingKey k) ↔ p.get? k = none := by
  unfold typedValue value
  cases h : p.get? k with
  | none => simp [bind, Except.bind]
  | some v =>
    cases hsel : select v <;> simp [hsel, bind, Except.bind, pure, Except.pure, throw, throwThe,
      MonadExceptOf.throw]

/-- A typed getter reports a mismatch naming the stored type exactly when the stored value is
of another type. -/
theorem typedValue_eq_typeMismatch_iff (hs : Selects expected select) {v : ParameterValue}
    (h : p.get? k = some v) :
    p.typedValue k expected select = .error (.typeMismatch k expected v.typeName) ↔
      v.typeName ≠ expected := by
  unfold typedValue value
  rw [h, ne_eq, ← hs v]
  cases hsel : select v <;> simp [hsel, bind, Except.bind, pure, Except.pure, throw, throwThe,
    MonadExceptOf.throw]

end Typed

/-- An edit of a collection: a change its interface offers, made at the top or, through the
mutable view of a nested collection, inside the collection stored at a key. -/
inductive Edit where
  | add (key : String) (v : ParameterValue)
  | addNested (q : Parameters)
  | set (key : String) (v : ParameterValue)
  | rename (name : String)
  | inside (key : String) (e : Edit)

namespace Edit

/-- The collection an edit makes, or the error that stops it. -/
def apply : Edit → Parameters → Except ParameterError Parameters
  | .add k v, p => p.add k v
  | .addNested q, p => p.addNested q
  | .set k v, p => .ok (p.set k v)
  | .rename n, p => .ok (p.rename n)
  | .inside k e, p => p.modifyNested k e.apply

/-- The key an edit writes: the one it adds or sets, or the one whose collection it changes. -/
def key? : Edit → Option String
  | .add k _ | .set k _ | .inside k _ => some k
  | .addNested q => some q.name
  | .rename _ => none

/-- The values an edit brings in are well keyed at every level. -/
def WellKeyed : Edit → Prop
  | .add _ v | .set _ v => v.WellKeyed
  | .addNested q => q.WellKeyed
  | .rename _ => True
  | .inside _ e => e.WellKeyed

/-- A run of edits; an edit that fails leaves the collection as it was. -/
def run : List Edit → Parameters → Parameters
  | [], p => p
  | e :: es, p =>
    match e.apply p with
    | .ok q => run es q
    | .error _ => run es p

/-- `add` of a present key changes nothing: the run goes on from the same collection. -/
theorem run_add_of_mem {k : String} {p : Parameters} (hk : k ∈ p.keys) (v : ParameterValue)
    (es : List Edit) : run (.add k v :: es) p = run es p := by
  have h : (Edit.add k v).apply p = .error (.duplicateKey k) := by
    simp [apply, Parameters.add, contains_iff_mem_keys.2 hk]
  simp only [run, h]

theorem run_append (pre post : List Edit) (p : Parameters) :
    run (pre ++ post) p = run post (run pre p) := by
  induction pre generalizing p with
  | nil => rfl
  | cons e pre ih =>
    simp only [List.cons_append, run]
    split <;> exact ih _

/-- The step of a change inside the collection at `k`: the collection stored there is changed
and put back in place. -/
theorem apply_inside {k : String} {e : Edit} {p p' : Parameters}
    (h : (Edit.inside k e).apply p = .ok p') : ∃ q q', p.get? k = some (.ofParameters q) ∧
      e.apply q = .ok q' ∧ p' = ⟨p.name, replaceFirst k (.ofParameters q') p.entries⟩ := by
  simp only [apply, modifyNested, bind, Except.bind] at h
  cases hq : p.nested k with
  | error => simp [hq] at h
  | ok q =>
    cases hq' : e.apply q with
    | error => simp [hq, hq'] at h
    | ok q' =>
      simp only [hq, hq', pure, Except.pure, Except.ok.injEq] at h
      exact ⟨q, q', nested_eq_ok_iff.1 hq, hq', h.symm⟩

/-- One edit keeps the keys distinct at every level. -/
theorem apply_wellKeyed {e : Edit} (he : e.WellKeyed) {p p' : Parameters} (hp : p.WellKeyed)
    (h : e.apply p = .ok p') : p'.WellKeyed := by
  induction e generalizing p p' with
  | add k v => exact add_wellKeyed hp he h
  | addNested q => exact add_wellKeyed hp he h
  | set k v =>
    cases h
    exact set_wellKeyed hp he
  | rename n =>
    cases h
    exact hp
  | inside k e ih =>
    obtain ⟨q, q', hq, hq', rfl⟩ := apply_inside h
    -- the stored collection is well keyed, and so is what the edit makes of it
    have hqw : q.WellKeyed := (wellKeyed_iff.1 hp).2 _ (mem_of_get? hq)
    exact replaceFirst_wellKeyed hp (ih he hqw hq')

/-- A run of edits bringing in well-keyed values keeps the keys distinct at every level. -/
theorem run_wellKeyed {es : List Edit} (hes : ∀ e ∈ es, e.WellKeyed) {p : Parameters}
    (hp : p.WellKeyed) : (run es p).WellKeyed := by
  induction es generalizing p with
  | nil => exact hp
  | cons e es ih =>
    have hrest := fun e' he' => hes e' (List.mem_cons_of_mem _ he')
    simp only [run]
    split
    · next q h => exact ih hrest (apply_wellKeyed (hes e List.mem_cons_self) hp h)
    · exact ih hrest hp

/-- Every run of well-keyed edits from `p` ends with distinct keys exactly when `p` has them: the
empty run is one of them. -/
theorem run_wellKeyed_iff (p : Parameters) :
    (∀ es : List Edit, (∀ e ∈ es, e.WellKeyed) → (run es p).WellKeyed) ↔ p.WellKeyed :=
  ⟨fun h => h [] (by simp), fun hp _ hes => run_wellKeyed hes hp⟩

/-- An edit that writes another key keeps the value of `k`. -/
theorem get?_apply_of_ne {e : Edit} {p p' : Parameters} {k : String} (hk : e.key? ≠ some k)
    (h : e.apply p = .ok p') : p'.get? k = p.get? k := by
  cases e with
  | add j v =>
    obtain ⟨-, rfl⟩ := (add_eq_ok_iff p j v).1 h
    exact get?_append_of_ne (fun hkj => hk (by simp [key?, hkj]))
  | addNested q =>
    obtain ⟨-, rfl⟩ := (add_eq_ok_iff p q.name _).1 h
    exact get?_append_of_ne (fun hkj => hk (by simp [key?, hkj]))
  | set j v =>
    cases h
    exact (get?_set p j v).2 k (fun hkj => hk (by simp [key?, hkj]))
  | rename n =>
    cases h
    rfl
  | inside j e =>
    obtain ⟨q, q', -, -, rfl⟩ := apply_inside h
    exact get?_replaceFirst_of_ne (fun hkj => hk (by simp [key?, hkj]))

/-- After a run, a key has the value of its last write, when that write succeeded and no later
edit writes the key. -/
theorem get?_run_last_write {pre post : List Edit} {e : Edit} {p q : Parameters} {k : String}
    {v : ParameterValue} (hw : e = .add k v ∨ e = .set k v) (h : e.apply (run pre p) = .ok q)
    (hpost : ∀ e' ∈ post, e'.key? ≠ some k) : (run (pre ++ e :: post) p).get? k = some v := by
  have hq : q.get? k = some v := by
    rcases hw with rfl | rfl
    · obtain ⟨hk, rfl⟩ := (add_eq_ok_iff _ k v).1 h
      exact get?_append_self (Bool.eq_false_iff.2 (mt contains_iff_mem_keys.1 hk))
    · cases h
      exact (get?_set _ k v).1
  rw [run_append, run, h]
  -- the later edits keep the value, one edit at a time
  clear h
  induction post generalizing q with
  | nil => exact hq
  | cons e' post ih =>
    have hrest := fun e'' he'' => hpost e'' (List.mem_cons_of_mem _ he'')
    simp only [run]
    split
    · next q' h' => exact ih hrest ((get?_apply_of_ne (hpost e' List.mem_cons_self) h').trans hq)
    · exact ih hrest hq

/-- Keys are kept in the order they first came in: an edit keeps the keys, or appends the key it
writes, which was absent. -/
theorem keys_apply {e : Edit} {p p' : Parameters} (h : e.apply p = .ok p') :
    p'.keys = p.keys ∨ ∃ k, e.key? = some k ∧ k ∉ p.keys ∧ p'.keys = p.keys ++ [k] := by
  cases e with
  | add k v => exact Or.inr ⟨k, rfl, ((add_eq_ok_iff p k v).1 h).1, keys_add p k v h⟩
  | addNested q =>
    exact Or.inr ⟨q.name, rfl, ((add_eq_ok_iff p q.name _).1 h).1, keys_add p q.name _ h⟩
  | set k v =>
    cases h
    rw [keys_set]
    split_ifs with hk
    · exact Or.inl rfl
    · exact Or.inr ⟨k, rfl, hk, rfl⟩
  | rename n =>
    cases h
    exact Or.inl rfl
  | inside k e =>
    obtain ⟨q, q', -, -, rfl⟩ := apply_inside h
    exact Or.inl (by simp [keys_eq])

end Edit

/-- The laws of an insertion-ordered map that collections obey: a new collection has distinct
keys, the writes `add` and `set` read through `get?` and `keys`, and the typed getters. -/
structure OrderedMapLaws : Prop where
  new : ∀ name, (new name).WellKeyed
  add : ∀ (p : Parameters) k v, (k ∈ p.keys ∧ p.add k v = .error (.duplicateKey k)) ∨
    (k ∉ p.keys ∧ ∃ p', p.add k v = .ok p' ∧ p'.keys = p.keys ++ [k] ∧ p'.get? k = some v ∧
      ∀ j ≠ k, p'.get? j = p.get? j)
  set : ∀ (p : Parameters) k v, (p.set k v).get? k = some v ∧
    (∀ j ≠ k, (p.set k v).get? j = p.get? j) ∧
    (p.set k v).keys = if k ∈ p.keys then p.keys else p.keys ++ [k]
  add_present_run : ∀ (p : Parameters) k v es, k ∈ p.keys →
    Edit.run (.add k v :: es) p = Edit.run es p
  keys_apply : ∀ (e : Edit) (p p' : Parameters), e.apply p = .ok p' →
    p'.keys = p.keys ∨ ∃ k, e.key? = some k ∧ k ∉ p.keys ∧ p'.keys = p.keys ++ [k]
  last_write : ∀ (pre post : List Edit) (e : Edit) (p q : Parameters) k v,
    (e = .add k v ∨ e = .set k v) → e.apply (Edit.run pre p) = .ok q →
    (∀ e' ∈ post, e'.key? ≠ some k) → (Edit.run (pre ++ e :: post) p).get? k = some v
  typed : ∀ {α : Type} (expected : String) (select : ParameterValue → Option α),
    Selects expected select → ∀ (p : Parameters) k,
      (p.typedValue k expected select = .error (.missingKey k) ↔ p.get? k = none) ∧
      ∀ v, p.get? k = some v →
        (p.typedValue k expected select = .error (.typeMismatch k expected v.typeName) ↔
          v.typeName ≠ expected)
  getters : Selects "bool" ParameterValue.asBool? ∧ Selects "int" ParameterValue.asInt? ∧
    Selects "real" ParameterValue.asReal? ∧ Selects "string" ParameterValue.asStr? ∧
    Selects "parameters" ParameterValue.asParameters?

/-- Collections of parameters obey the laws of an insertion-ordered map. -/
theorem mapLaws : OrderedMapLaws where
  new := new_wellKeyed
  add p k v := by
    rcases get?_add p k v with h | ⟨hk, p', h, hv, hother⟩
    · exact Or.inl h
    · exact Or.inr ⟨hk, p', h, keys_add p k v h, hv, hother⟩
  set p k v := ⟨(get?_set p k v).1, (get?_set p k v).2, keys_set p k v⟩
  add_present_run _ _ v es hk := Edit.run_add_of_mem hk v es
  keys_apply _ _ _ h := Edit.keys_apply h
  last_write _ _ _ _ _ _ _ hw h hpost := Edit.get?_run_last_write hw h hpost
  typed _ _ hs p k := ⟨typedValue_eq_missingKey_iff p k _ _,
    fun _ h => typedValue_eq_typeMismatch_iff p k _ _ hs h⟩
  getters := ⟨selects_bool, selects_int, selects_real, selects_str, selects_parameters⟩

/-- Collections of parameters are insertion-ordered maps, and the keys of a collection stay
distinct at every level under every run of edits that brings in well-keyed values exactly when
they are distinct in the collection the run starts from. -/
theorem orderedMapLaws (p : Parameters) :
    ((∀ es : List Edit, (∀ e ∈ es, e.WellKeyed) → (Edit.run es p).WellKeyed) ↔ p.WellKeyed) ∧
      OrderedMapLaws :=
  ⟨Edit.run_wellKeyed_iff p, mapLaws⟩

/-- The stored layout of a collection `p` whose entries list the key `a` twice. -/
def twiceKeyedText : String :=
  "\x7b\"name\": \"p\", \"entries\": [[\"a\", \x7b\"Int\": 1\x7d], [\"a\", \x7b\"Int\": 2\x7d]]\x7d"

/-- Loading checks no keys: the text of a collection with the key `a` twice loads, with `a`
twice. -/
theorem fromJsonText_repeats_key :
    ∃ p, fromJsonText twiceKeyedText = .ok p ∧ p.keys = ["a", "a"] ∧ ¬ p.WellKeyed := by
  have h : (fromJsonText twiceKeyedText).toOption.map keys = some ["a", "a"] := by
    decide +kernel
  cases hj : fromJsonText twiceKeyedText with
  | error e => simp [hj, Except.toOption] at h
  | ok p =>
    have hk : p.keys = ["a", "a"] := by simpa [hj, Except.toOption] using h
    exact ⟨p, rfl, hk, fun hw => by simpa [hk] using (wellKeyed_iff.1 hw).1⟩

end Parameters

end MixedFem
