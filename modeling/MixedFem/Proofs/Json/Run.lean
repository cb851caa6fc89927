import MixedFem.Parameters.Read
import Mathlib

/-!
# Running readers on bytes

* `runFrom x b i` : the outcome of the reader `x` on the bytes `b` from offset `i`, and where it
  stops; `runFrom_bind`, `runFrom_map`, `runFrom_tryCatch` and the rules of the primitives;
* `Fails`, `Yields` : a run that ends in an error, and one that gives a value exactly when a
  condition holds and fails otherwise; `Fails.placing`, `Fails.closing` (a failed body fails
  its container), `Yields.bind`, `Yields.placing`, `Yields.closing`;
* `At b i xs` : the bytes `xs` stand in `b` from `i` on (`at_append`, `at_cons`);
* `textBytes`, `digitBytes` : the UTF-8 bytes of a text and of the digits of a number;
* `runFrom_skipBlank`, `runFrom_digits`, `runFrom_colon`, `runFrom_nextElement_*`, … : the
  lexical steps on known bytes.
-/

namespace MixedFem.Reader

variable {α β : Type}

/-- The outcome of `x` run on the bytes `b` from offset `i`, and the offset it stops at. -/
def runFrom (x : Reader α) (b : ByteArray) (i : Nat) : Except ReadError α × Nat :=
  ((x.run b).run).run i

section Run

variable (b : ByteArray) (i : Nat)

@[simp] theorem runFrom_pure (a : α) : runFrom (pure a) b i = (.ok a, i) := rfl

@[simp] theorem runFrom_bind (x : Reader α) (f : α → Reader β) :
    runFrom (x >>= f) b i = match runFrom x b i with
      | (.ok a, j) => runFrom (f a) b j
      | (.error e, j) => (.error e, j) := by
  unfold runFrom
  rcases h : ((x.run b).run).run i with ⟨_ | a, j⟩ <;>
  · simp only [ReaderT.run, ExceptT.run, StateT.run] at h ⊢
    simp only [bind, ReaderT.bind, ExceptT.bind, ExceptT.mk, StateT.bind, h]
    rfl

@[simp] theorem runFrom_map (f : α → β) (x : Reader α) :
    runFrom (f <$> x) b i = match runFrom x b i with
      | (.ok a, j) => (.ok (f a), j)
      | (.error e, j) => (.error e, j) := by
  rw [map_eq_pure_bind, runFrom_bind]
  rcases runFrom x b i with ⟨_ | a, j⟩ <;> rfl

@[simp] theorem runFrom_read : runFrom (read : Reader ByteArray) b i = (.ok b, i) := rfl

@[simp] theorem runFrom_get : runFrom (get : Reader Nat) b i = (.ok i, i) := rfl

@[simp] theorem runFrom_set (j : Nat) : runFrom (set j : Reader PUnit) b i = (.ok ⟨⟩, j) := rfl

@[simp] theorem runFrom_throw (e : ReadError) : runFrom (throw e : Reader α) b i = (.error e, i) :=
  rfl

@[simp] theorem runFrom_ite (c : Prop) [Decidable c] (x y : Reader α) :
    runFrom (if c then x else y) b i = if c then runFrom x b i else runFrom y b i := by
  split <;> rfl

@[simp] theorem runFrom_peek : runFrom peek b i = (.ok b[i]?, i) := rfl

@[simp] theorem runFrom_eat : runFrom eat b i = (.ok (), i + 1) := rfl

theorem runFrom_next : runFrom next b i = (.ok b[i]?, if b[i]?.isSome then i + 1 else i) := by
  unfold next
  simp only [runFrom_bind, runFrom_peek]
  split <;> simp

@[simp] theorem runFrom_tryCatch (x : Reader α) (h : ReadError → Reader α) :
    runFrom (tryCatch x h) b i = match runFrom x b i with
      | (.ok a, j) => (.ok a, j)
      | (.error e, j) => runFrom (h e) b j := by
  unfold runFrom
  rcases hx : ((x.run b).run).run i with ⟨_ | a, j⟩
  all_goals
    simp only [ReaderT.run, ExceptT.run, StateT.run] at hx ⊢
    simp only [tryCatch, tryCatchThe, MonadExceptOf.tryCatch, ExceptT.tryCatch, ExceptT.mk, bind,
      StateT.bind, hx]
  rfl

end Run

/-- Running `x` on `b` from `i` ends in an error. -/
def Fails (x : Reader α) (b : ByteArray) (i : Nat) : Prop := ∃ e j, runFrom x b i = (.error e, j)

/-- `x` read from `i` gives `a` and stops at `j` when `good` holds, and fails when it does not. -/
structure Yields (x : Reader α) (b : ByteArray) (i : Nat) (good : Prop) (a : α) (j : Nat) :
    Prop where
  ok : good → runFrom x b i = (.ok a, j)
  fails : ¬ good → Fails x b i

section Outcomes

variable {b : ByteArray} {i j k : Nat}

theorem Fails.bind {x : Reader α} (h : Fails x b i) (f : α → Reader β) : Fails (x >>= f) b i := by
  obtain ⟨e, j, h⟩ := h
  exact ⟨e, j, by simp only [runFrom_bind, h]⟩

theorem Fails.bind_ok {x : Reader α} {a : α} (hx : runFrom x b i = (.ok a, j)) {f : α → Reader β}
    (h : Fails (f a) b j) : Fails (x >>= f) b i := by
  obtain ⟨e, k, h⟩ := h
  exact ⟨e, k, by simp only [runFrom_bind, hx, h]⟩

theorem Yields.of_ok {x : Reader α} {a : α} (h : runFrom x b i = (.ok a, j)) :
    Yields x b i True a j :=
  ⟨fun _ => h, fun h => absurd trivial h⟩

theorem Yields.congr {x : Reader α} {g g' : Prop} {a : α} (h : Yields x b i g a j) (hg : g ↔ g') :
    Yields x b i g' a j :=
  ⟨fun h' => h.ok (hg.2 h'), fun h' => h.fails (mt hg.1 h')⟩

theorem Yields.bind {x : Reader α} {g g' : Prop} {a : α} {f : α → Reader β} {c : β}
    (hx : Yields x b i g a j) (hf : Yields (f a) b j g' c k) : Yields (x >>= f) b i (g ∧ g') c k := by
  constructor
  · rintro ⟨h, h'⟩
    simp only [runFrom_bind, hx.ok h, hf.ok h']
  · intro h
    by_cases hg : g
    · exact Fails.bind_ok (hx.ok hg) (hf.fails fun h' => h ⟨hg, h'⟩)
    · exact (hx.fails hg).bind f

theorem Yields.bind_ok {x : Reader α} {a : α} (hx : runFrom x b i = (.ok a, j)) {g : Prop}
    {f : α → Reader β} {c : β} (hf : Yields (f a) b j g c k) : Yields (x >>= f) b i g c k :=
  ((Yields.of_ok hx).bind hf).congr (Iff.of_eq (true_and g))

theorem Fails.map {x : Reader α} (h : Fails x b i) (f : α → β) : Fails (f <$> x) b i := by
  obtain ⟨e, k, hk⟩ := h
  exact ⟨e, k, by simp only [runFrom_map, hk]⟩

theorem Yields.map {x : Reader α} {g : Prop} {a : α} (hx : Yields x b i g a j) (f : α → β) :
    Yields (f <$> x) b i g (f a) j := by
  constructor
  · intro h; simp only [runFrom_map, hx.ok h]
  · intro h
    exact (hx.fails h).map f

theorem fails_failNext (t : String) : Fails (failNext t : Reader α) b i := ⟨_, _, rfl⟩

theorem fails_failLater (t : String) : Fails (failLater t : Reader α) b i := ⟨_, _, rfl⟩

/-- A failure stays a failure once its place is filled in. -/
theorem Fails.placing {x : Reader α} (h : Fails x b i) : Fails (placing x) b i := by
  obtain ⟨e, k, hk⟩ := h
  unfold Reader.placing
  cases ho : e.offset with
  | none =>
    exact ⟨{ e with offset := some k }, k, by
      simp only [runFrom_tryCatch, hk, ho, runFrom_bind, runFrom_get, runFrom_throw]⟩
  | some _ => exact ⟨e, k, by simp only [runFrom_tryCatch, hk, ho, runFrom_throw]⟩

theorem Yields.placing {x : Reader α} {g : Prop} {a : α} (hx : Yields x b i g a j) :
    Yields (placing x) b i g a j := by
  constructor
  · intro h; simp only [Reader.placing, runFrom_tryCatch, hx.ok h]
  · intro h
    exact (hx.fails h).placing

/-- A failed body fails the container, whatever its close does. -/
theorem Fails.closing {body : Reader α} (hb : Fails body b i) (close : Reader Unit) :
    Fails (closing body close) b i := by
  obtain ⟨e, l, hl⟩ := hb
  cases hcl : runFrom close b l with
  | mk r m =>
    cases r <;> exact ⟨e, m, by simp only [Reader.closing, attempt, runFrom_bind,
      runFrom_tryCatch, runFrom_map, hl, hcl, runFrom_pure, runFrom_throw]⟩

theorem Yields.closing {body : Reader α} {close : Reader Unit} {g g' : Prop} {a : α}
    (hb : Yields body b i g a j) (hc : Yields close b j g' () k) :
    Yields (closing body close) b i (g ∧ g') a k := by
  constructor
  · rintro ⟨h, h'⟩
    simp only [Reader.closing, attempt, runFrom_bind, runFrom_tryCatch, runFrom_map, hb.ok h,
      hc.ok h', runFrom_pure]
  · intro h
    by_cases hg : g
    · obtain ⟨e, l, hl⟩ := hc.fails fun h' => h ⟨hg, h'⟩
      exact ⟨e, l, by simp only [Reader.closing, attempt, runFrom_bind, runFrom_tryCatch,
        runFrom_map, hb.ok hg, hl, runFrom_pure, runFrom_throw]⟩
    · exact (hb.fails hg).closing close

end Outcomes

/-- The bytes `xs` stand in `b` from offset `i` on. -/
def At (b : ByteArray) (i : Nat) (xs : List UInt8) : Prop :=
  ∀ j (h : j < xs.length), b[i + j]? = some xs[j]

/-- The bytes stepped over between tokens. -/
def isBlank (c : UInt8) : Bool := c == 32 || c == 10 || c == 9 || c == 13

/-- A run of blank bytes. -/
def Blanks (ws : List UInt8) : Prop := ∀ c ∈ ws, isBlank c = true

section Bytes

variable {b : ByteArray} {i : Nat}

theorem at_append {xs ys : List UInt8} :
    At b i (xs ++ ys) ↔ At b i xs ∧ At b (i + xs.length) ys := by
  constructor
  · intro h
    refine ⟨fun j hj => ?_, fun j hj => ?_⟩
    · rw [h j (by simp; omega), List.getElem_append_left hj]
    · rw [Nat.add_assoc, h (xs.length + j) (by simp; omega), List.getElem_append_right (by omega)]
      simp
  · rintro ⟨h₁, h₂⟩ j hj
    by_cases hj' : j < xs.length
    · rw [h₁ j hj', List.getElem_append_left hj']
    · have := h₂ (j - xs.length) (by simp at hj; omega)
      rw [show i + xs.length + (j - xs.length) = i + j by omega] at this
      rw [this, List.getElem_append_right (by omega)]

theorem At.of_eq {xs : List UInt8} {j : Nat} (h : At b i xs) (hij : i = j) : At b j xs := hij ▸ h

theorem at_cons {c : UInt8} {xs : List UInt8} : At b i (c :: xs) ↔ b[i]? = some c ∧ At b (i + 1) xs := by
  rw [show c :: xs = [c] ++ xs from rfl, at_append]
  constructor
  · rintro ⟨h, h'⟩; exact ⟨h 0 (by simp), h'⟩
  · rintro ⟨h, h'⟩
    refine ⟨fun j hj => ?_, h'⟩
    obtain rfl : j = 0 := by simpa using hj
    exact h

theorem lt_size_of_getElem? {k : Nat} {c : UInt8} (h : b[k]? = some c) : k < b.size := by
  have h' : b.data[k]? = some c := h
  obtain ⟨hk, -⟩ := Array.getElem?_eq_some_iff.1 h'
  exact hk

theorem At.le_size {xs : List UInt8} (h : At b i xs) (hne : xs ≠ []) : i + xs.length ≤ b.size := by
  have hlen : 0 < xs.length := List.length_pos_iff.2 hne
  have := lt_size_of_getElem? (h (xs.length - 1) (by omega))
  omega

theorem getElem_of_getElem? {k : Nat} {c : UInt8} (h : b[k]? = some c) (hk : k < b.size) :
    b[k] = c := by
  have h' : b.data[k]? = some c := h
  exact (Array.getElem?_eq_some_iff.1 h').2

theorem blankEnd_eq {ws : List UInt8} (hw : Blanks ws) {c : UInt8}
    (hc : isBlank c = false) (h : At b i (ws ++ [c])) : blankEnd b i = i + ws.length := by
  unfold Blanks isBlank at hw
  unfold isBlank at hc
  induction ws generalizing i with
  | nil =>
    have hi := (at_cons.1 h).1
    rw [blankEnd, dif_pos (lt_size_of_getElem? hi)]
    simp only [getElem_of_getElem? hi, hc, Bool.false_eq_true, if_false, List.length_nil,
      Nat.add_zero]
  | cons w ws ih =>
    obtain ⟨hi, h'⟩ := at_cons.1 h
    rw [blankEnd, dif_pos (lt_size_of_getElem? hi)]
    simp only [getElem_of_getElem? hi, hw w (by simp), if_true]
    rw [ih (fun c hc => hw c (by simp [hc])) h', List.length_cons]
    omega

end Bytes

/-- The UTF-8 bytes of a text. -/
def textBytes (s : String) : List UInt8 := s.toUTF8.data.toList

/-- The bytes of the decimal digits of `n`. -/
def digitBytes (n : Nat) : List UInt8 := (Nat.toDigits 10 n).map fun c => c.toNat.toUInt8

/-- Reading the digit bytes `ds` after digits worth `acc`. -/
def digitsFold (acc : Nat) (ds : List UInt8) : Nat := ds.foldl (fun a d => 10 * a + (d.toNat - 48)) acc

/-- The value of a run of digit bytes. -/
def digitsValue (ds : List UInt8) : Nat := digitsFold 0 ds

section Text

@[simp] theorem textBytes_append (s t : String) :
    textBytes (s ++ t) = textBytes s ++ textBytes t := by
  simp only [textBytes, String.toUTF8_eq_toByteArray, String.toByteArray_append,
    ByteArray.toList_data_append]

theorem textBytes_ofList (cs : List Char) :
    textBytes (String.ofList cs) = cs.flatMap String.utf8EncodeChar := by
  simp only [textBytes, String.toUTF8_eq_toByteArray, String.toByteArray_ofList, List.utf8Encode,
    List.toList_data_toByteArray]

theorem utf8EncodeChar_ascii {c : Char} (h : c.toNat < 128) :
    String.utf8EncodeChar c = [c.toNat.toUInt8] := by
  have h' : c.val.toNat < 128 := by rw [Char.toNat_val]; exact h
  rw [String.utf8EncodeChar_eq_singleton (Char.utf8Size_eq_one_iff.2 ?_)]
  · rfl
  · exact UInt32.le_iff_toNat_le.2 (by simp only [UInt32.reduceToNat]; omega)

theorem digitChar_lt {n : Nat} {c : Char} (h : c ∈ Nat.toDigits 10 n) : 48 ≤ c.toNat ∧ c.toNat ≤ 57 := by
  have hd := Nat.isDigit_of_mem_toDigits (by norm_num) (by norm_num) h
  simp only [Char.isDigit, Bool.and_eq_true, decide_eq_true_eq, ge_iff_le,
    UInt32.le_iff_toNat_le] at hd
  rw [← Char.toNat_val]
  exact hd

theorem textBytes_repr (n : Nat) : textBytes (Nat.repr n) = digitBytes n := by
  rw [Nat.repr_eq_ofList_toDigits, textBytes_ofList, digitBytes, ← List.flatMap_pure_eq_map]
  apply List.flatMap_congr
  intro c hc
  rw [utf8EncodeChar_ascii (by have := digitChar_lt hc; omega)]
  rfl

theorem digitBytes_spec (n : Nat) :
    (∀ d ∈ digitBytes n, isDigit d = true) ∧
      digitsValue (digitBytes n) = n := by
  constructor
  · intro d hd
    obtain ⟨c, hc, rfl⟩ := List.mem_map.1 hd
    have := digitChar_lt hc
    simp only [isDigit, Bool.and_eq_true, decide_eq_true_eq, UInt8.le_iff_toNat_le,
      Nat.toUInt8_eq, UInt8.toNat_ofNat', UInt8.reduceToNat, Nat.reducePow]
    omega
  · rw [digitsValue, digitsFold, digitBytes, List.foldl_map]
    conv_rhs => rw [← Nat.ofDigitChars_ten_toDigits (n := n), Nat.ofDigitChars_eq_foldl]
    apply List.foldl_ext
    intro a c hc
    have := digitChar_lt hc
    simp only [Nat.toUInt8_eq, UInt8.toNat_ofNat', Nat.reducePow, Char.reduceToNat]
    omega

end Text

section Lexing

variable {b : ByteArray} {i : Nat}

theorem digitsFrom_eq {ds : List UInt8} (hd : ∀ d ∈ ds, isDigit d = true) {c : UInt8}
    (hc : isDigit c = false) (h : At b i (ds ++ [c])) (acc n : Nat) :
    digitsFrom b i acc n =
      (i + ds.length, digitsFold acc ds, n + ds.length) := by
  induction ds generalizing i acc n with
  | nil =>
    have hi := (at_cons.1 h).1
    rw [digitsFrom, dif_pos (lt_size_of_getElem? hi)]
    simp only [getElem_of_getElem? hi, hc, Bool.false_eq_true, if_false, List.length_nil,
      Nat.add_zero, digitsFold, List.foldl_nil]
  | cons d ds ih =>
    obtain ⟨hi, h'⟩ := at_cons.1 h
    rw [digitsFrom, dif_pos (lt_size_of_getElem? hi)]
    simp only [getElem_of_getElem? hi, hd d (by simp), if_true]
    rw [ih (fun c hc => hd c (by simp [hc])) h', List.length_cons, digitsFold, digitsFold,
      List.foldl_cons]
    simp only [Prod.mk.injEq, true_and]
    omega

theorem runFrom_digits {ds : List UInt8} (hd : ∀ d ∈ ds, isDigit d = true) {c : UInt8}
    (hc : isDigit c = false) (h : At b i (ds ++ [c])) :
    runFrom digits b i =
      (.ok (digitsValue ds, ds.length), i + ds.length) := by
  simp only [digits, runFrom_bind, runFrom_read, runFrom_get, digitsFrom_eq hd hc h,
    runFrom_set, runFrom_pure, Nat.zero_add]
  rfl

theorem runFrom_skipBlank {ws : List UInt8} (hw : Blanks ws) {c : UInt8}
    (hc : isBlank c = false) (h : At b i (ws ++ [c])) :
    runFrom skipBlank b i = (.ok (some c), i + ws.length) := by
  have hc' := (at_append.1 h).2 0 (by simp)
  simp only [Nat.add_zero] at hc'
  simp only [skipBlank, runFrom_bind, runFrom_read, runFrom_get, blankEnd_eq hw hc h, runFrom_set,
    runFrom_peek, hc']
  rfl

theorem runFrom_skipBlank_end : runFrom skipBlank b b.size = (.ok none, b.size) := by
  simp only [skipBlank, runFrom_bind, runFrom_read, runFrom_get]
  rw [blankEnd, dif_neg (Nat.lt_irrefl _)]
  have hnone : b[b.size]? = none := by
    show b.data[b.size]? = none
    exact Array.getElem?_eq_none (Nat.le_refl _)
  simp only [runFrom_set, runFrom_peek, hnone]

theorem runFrom_next_of {c : UInt8} (h : b[i]? = some c) : runFrom next b i = (.ok (some c), i + 1) := by
  rw [runFrom_next, h]
  rfl

theorem runFrom_enter {d : Nat} (hd : 2 ≤ d) : runFrom (enter d) b i = (.ok (), i + 1) := by
  simp only [enter, show ¬ d ≤ 1 by omega, if_false, runFrom_eat]

theorem runFrom_colon {ws : List UInt8} (hw : Blanks ws) (h : At b i (ws ++ [58])) :
    runFrom colon b i = (.ok (), i + ws.length + 1) := by
  simp only [colon, runFrom_bind, runFrom_skipBlank hw rfl h, runFrom_eat]

theorem runFrom_closeArray {ws : List UInt8} (hw : Blanks ws) (h : At b i (ws ++ [93])) :
    runFrom closeArray b i = (.ok (), i + ws.length + 1) := by
  simp only [closeArray, runFrom_bind, runFrom_skipBlank hw rfl h, runFrom_eat]

theorem runFrom_closeObject {ws : List UInt8} (hw : Blanks ws) (h : At b i (ws ++ [125])) :
    runFrom closeObject b i = (.ok (), i + ws.length + 1) := by
  simp only [closeObject, runFrom_bind, runFrom_skipBlank hw rfl h, runFrom_eat]

theorem runFrom_nextElement_close {ws : List UInt8} (hw : Blanks ws) (first : Bool)
    (h : At b i (ws ++ [93])) : runFrom (nextElement first) b i = (.ok false, i + ws.length) := by
  simp only [nextElement, runFrom_bind, runFrom_skipBlank hw rfl h]
  rfl

theorem runFrom_nextElement_first {ws : List UInt8} (hw : Blanks ws) {c : UInt8}
    (hc : isBlank c = false) (h93 : c ≠ 93) (h44 : c ≠ 44) (h : At b i (ws ++ [c])) :
    runFrom (nextElement true) b i = (.ok true, i + ws.length) := by
  simp only [nextElement, runFrom_bind, runFrom_skipBlank hw hc h, if_true, pure_bind,
    beq_iff_eq, h93, if_false, runFrom_pure]

theorem runFrom_nextElement_comma {ws ws' : List UInt8} (hw : Blanks ws) (hw' : Blanks ws')
    {c : UInt8} (hc : isBlank c = false) (h93 : c ≠ 93) (h : At b i (ws ++ [44] ++ ws' ++ [c])) :
    runFrom (nextElement false) b i = (.ok true, i + ws.length + 1 + ws'.length) := by
  have h₁ : At b i (ws ++ [44]) := (at_append.1 (at_append.1 h).1).1
  have h₂ : At b (i + ws.length + 1) (ws' ++ [c]) :=
    (at_append.1 (List.append_assoc (ws ++ [44]) ws' [c] ▸ h)).2.of_eq (by simp; omega)
  simp only [nextElement, runFrom_bind, runFrom_skipBlank hw rfl h₁, Bool.false_eq_true, if_false,
    runFrom_eat, runFrom_skipBlank hw' hc h₂, pure_bind, beq_iff_eq, h93, runFrom_pure]

end Lexing

end MixedFem.Reader
