import MixedFem.Proofs.Parameters.Stored

/-!
# Stored texts that are refused

The reader of the stored layout refuses a collection whose integers leave 64 bits, whose reals
are not finite (the layout writes them as `null`), or whose text nests more than 127 containers
deep, four for each level of nested collections. With `Parameters.fromJsonText_toJsonText` this
fixes the outcome of reading back the text of every collection.

* `Reader.Refuses x xs` : `x` fails on the bytes `xs`, after any blanks;
* `Reader.RefusesAmong elem k js` : reading the elements `js` in turn comes to one that `elem`
  refuses;
* `Reader.fails_readReal_null`, `Reader.fails_readInt` : a real written as `null`, and an integer
  outside 64 bits;
* `Reader.refuses_readValue_spent` and its likes : a reader whose budget is spent refuses the
  container in front of it;
* `Reader.refuses_value`, `Reader.refuses_entries` : every value that is not storable within the
  budget;
* `Parameters.fromJsonText_toJsonText_outcome` : the text of a collection is read back as it was
  exactly when the collection is storable and nests at most 127 deep, and is refused otherwise.
-/

namespace MixedFem

namespace Reader

open Json ParameterValue

variable {α : Type} {b : ByteArray} {i : Nat}

/-- `x` fails on the bytes `xs` after any blanks, whatever stands behind them. -/
def Refuses (x : Reader α) (xs : List UInt8) : Prop :=
  ∀ {b : ByteArray} {i : Nat} {ws : List UInt8}, Blanks ws → At b i (ws ++ xs) → Fails x b i

/-- Reading the elements `js` in turn with `elem` comes to one that it refuses: the ones before
it are read. -/
inductive RefusesAmong (elem : Reader α) (k : Nat) : List Json → Prop
  | here {j : Json} {js : List Json} :
      Refuses elem (textBytes (pretty k j)) → RefusesAmong elem k (j :: js)
  | next {j : Json} {js : List Json} {a : α} :
      Reads elem (textBytes (pretty k j)) a → RefusesAmong elem k js → RefusesAmong elem k (j :: js)

theorem RefusesAmong.ne_nil {elem : Reader α} {k : Nat} {js : List Json}
    (h : RefusesAmong elem k js) : js ≠ [] := by
  cases h <;> exact List.cons_ne_nil _ _

/-! ## Numbers -/

/-- An integer of `2^64` or more is read, if at all, as a float. -/
theorem runFrom_number_large (pos : Bool) {is : List UInt8} {c : UInt8} (his : Leading is)
    (hc : EndsNumber c) (hv : 2 ^ 64 ≤ digitsValue is) (h : At b i (is ++ [c])) {r : Number}
    {j : Nat} (hr : runFrom (number pos) b i = (.ok r, j)) : ∃ x, r = .float x := by
  obtain ⟨h46, h101, h69⟩ := hc.beq
  rcases his with rfl | ⟨d, rest, rfl, hd, hd48, hrest⟩
  · -- a lone zero is below the bound
    exact absurd hv (by decide)
  · simp only [List.cons_append] at h
    obtain ⟨h0, h1⟩ := at_cons.1 h
    have hint := runFrom_digits hrest hc.1 h1
    have hend : b[i + 1 + rest.length]? = some c := h1.split.2.1
    have hM : digitsValue rest + (d.toNat - 48) * 10 ^ rest.length = digitsValue (d :: rest) := by
      rw [digitsValue_cons, Nat.add_comm]
    have hd48' : (d == 48) = false := by simpa using hd48
    have hbig : ¬ digitsValue (d :: rest) < 2 ^ 64 := by omega
    -- past the integer path, the decimal is rounded and kept only if finite
    unfold number at hr
    simp only [runFrom_bind, runFrom_next_of h0, runFrom_pure, runFrom_peek, hint, hend, hd48', hd,
      if_true, if_false, Bool.false_eq_true, Option.some_beq_some, h46, h101, h69, Bool.or_false,
      Option.isNone_none, Bool.true_and, Nat.pow_eq, hM, hbig, decide_false, runFrom_ite] at hr
    split_ifs at hr
    · simp only [Prod.mk.injEq, Except.ok.injEq] at hr
      exact ⟨_, hr.1.symm⟩
    · simp only [failHere, runFrom_bind, runFrom_get, runFrom_throw, Prod.mk.injEq, reduceCtorEq,
        false_and] at hr

theorem fails_readNumber {ws : List UInt8} (hw : Blanks ws) (expected : String) (neg : Bool)
    {x : UInt8} (hx : isDigit x = true) {xs : List UInt8}
    (h : At b i (ws ++ (if neg then [45] else []) ++ x :: xs))
    (hr : Fails (number (!neg)) b (i + ws.length + (if neg then 1 else 0))) :
    Fails (readNumber expected) b i := by
  apply Fails.placing
  cases neg
  · have hs := runFrom_skipBlank hw (isBlank_of_isDigit hx) (by simpa using h.split.1)
    apply Fails.bind_ok hs
    split
    next heq => exact absurd heq (by simp)
    next heq => cases heq; exact absurd hx (by decide)
    next heq =>
      cases heq
      simp only [hx, if_true]
      simpa using hr
  · have hs := runFrom_skipBlank hw (c := 45) rfl (by simpa using (at_append.1 h).1)
    apply Fails.bind_ok hs
    exact Fails.bind_ok (runFrom_eat _ _) (by simpa using hr)

/-- `readInt` refuses a number read as a float or as an integer from `2^63` up. -/
theorem fails_readInt_of_number {ws : List UInt8} (hw : Blanks ws) (neg : Bool) {x : UInt8}
    (hx : isDigit x = true) {xs : List UInt8}
    (h : At b i (ws ++ (if neg then [45] else []) ++ x :: xs))
    (hbad : ∀ r j, runFrom (number (!neg)) b (i + ws.length + (if neg then 1 else 0)) = (.ok r, j) →
      (∃ y, r = .float y) ∨ ∃ n, r = .unsigned n ∧ 2 ^ 63 ≤ n) :
    Fails readInt b i := by
  apply Fails.placing
  rcases hnum : runFrom (number (!neg)) b (i + ws.length + (if neg then 1 else 0)) with ⟨_ | r, j⟩
  · exact (fails_readNumber hw "i64" neg hx h ⟨_, _, hnum⟩).bind _
  · apply Fails.bind_ok (runFrom_readNumber hw "i64" neg hx h hnum)
    rcases hbad r j hnum with ⟨y, rfl⟩ | ⟨n, rfl, hn⟩
    · exact fails_failLater _
    · simp only [Nat.pow_eq, show ¬ n < 2 ^ 63 by omega, if_false]
      exact fails_failLater _

/-- An integer outside 64 bits is refused: from `2^63` up it is out of range, below `-2^63` it
is read as a float, and from `2^64` up in size it is a float or out of range. -/
theorem fails_readInt {ws : List UInt8} (hw : Blanks ws) {n : Int}
    (hn : ¬ (-2 ^ 63 ≤ n ∧ n < 2 ^ 63)) {c : UInt8} (hc : EndsNumber c)
    (h : At b i (ws ++ textBytes (toString n) ++ [c])) : Fails readInt b i := by
  rw [textBytes_intRepr] at h
  obtain ⟨-, hv⟩ := digitBytes_spec n.natAbs
  obtain ⟨x, xs, hx, hxd⟩ := (leading_digitBytes n.natAbs).cons
  rcases lt_or_ge n 0 with hneg | hnn
  · -- a minus sign before the digits
    simp only [hneg, if_true, List.append_assoc, List.singleton_append] at h
    have hd : At b (i + ws.length + 1) (digitBytes n.natAbs ++ [c]) :=
      (at_cons.1 (at_append.1 h).2).2
    refine fails_readInt_of_number hw true hxd (by simpa [hx] using h) fun r j hr => .inl ?_
    simp only [Bool.not_true, if_true] at hr
    by_cases hbig : 2 ^ 64 ≤ n.natAbs
    · exact runFrom_number_large false (leading_digitBytes _) hc (by rw [hv]; exact hbig) hd hr
    · have hnum := runFrom_number_integer false (leading_digitBytes _) hc (by rw [hv]; omega) hd
      simp only [hr, hv, Bool.false_eq_true, if_false, show n.natAbs ≠ 0 by omega,
        show ¬ n.natAbs ≤ 2 ^ 63 by omega, Prod.mk.injEq, Except.ok.injEq] at hnum
      exact ⟨_, hnum.1⟩
  · simp only [show ¬ n < 0 by omega, if_false, List.nil_append, List.append_assoc] at h
    have hd : At b (i + ws.length) (digitBytes n.natAbs ++ [c]) := (at_append.1 h).2
    refine fails_readInt_of_number hw false hxd (by simpa [hx] using h) fun r j hr => ?_
    simp only [Bool.not_false, Bool.false_eq_true, if_false, Nat.add_zero] at hr
    by_cases hbig : 2 ^ 64 ≤ n.natAbs
    · exact .inl
        (runFrom_number_large true (leading_digitBytes _) hc (by rw [hv]; exact hbig) hd hr)
    · have hnum := runFrom_number_integer true (leading_digitBytes _) hc (by rw [hv]; omega) hd
      simp only [hr, hv, if_true, Prod.mk.injEq, Except.ok.injEq] at hnum
      exact .inr ⟨_, hnum.1, by omega⟩

theorem pretty_float_null {x : Float} (hx : x.isFinite = false) (k : Nat) :
    pretty k (.float x) = "null" := by
  rw [pretty, prettyTo, floatText, if_neg (by simp [hx]), String.empty_append]

/-- A real written as `null` is refused, as a literal where a number belongs. -/
theorem fails_readReal_null {ws : List UInt8} (hw : Blanks ws)
    (h : At b i (ws ++ textBytes "null")) : Fails readReal b i := by
  have hn : textBytes "null" = [110, 117, 108, 108] := rfl
  rw [hn] at h
  obtain ⟨h₁, h₂, h₃⟩ := h.split
  apply Fails.placing
  apply Fails.bind
  apply Fails.placing
  -- the `n` is no digit, so the literal is read only to be named in the error
  simp +decide only [Fails, runFrom_bind, runFrom_skipBlank hw rfl h₁, isDigit, if_false,
    wrongKind, placing, runFrom_tryCatch, runFrom_peek, h₂, Option.getD_some, runFrom_eat,
    runFrom_ident h₃, runFrom_pure, invalidType, failLater, runFrom_throw, runFrom_get]
  exact ⟨_, _, rfl⟩

/-! ## Spent budgets -/

theorem runFrom_enter_spent {d : Nat} (hd : d ≤ 1) :
    runFrom (enter d) b i =
      (.error ⟨"recursion limit exceeded", some (min b.size (i + 1))⟩, i) := by
  simp only [enter, hd, if_true, failNext, runFrom_bind, runFrom_read, runFrom_get, runFrom_throw]

theorem refuses_readValue_spent {d : Nat} (hd : d ≤ 1) (ys : List UInt8) :
    Refuses (readValue d) (123 :: ys) := by
  intro b i ws hw h
  rcases Nat.le_one_iff_eq_zero_or_eq_one.1 hd with rfl | rfl
  · rw [readValue]
    exact fails_failNext _
  · simp only [Fails, readValue, runFrom_bind, runFrom_skipBlank hw rfl h.split.1,
      runFrom_enter_spent le_rfl]
    exact ⟨_, _, rfl⟩

theorem refuses_readParameters_spent {d : Nat} (hd : d ≤ 1) (ys : List UInt8) :
    Refuses (readParameters d) (123 :: ys) := by
  intro b i ws hw h
  rcases Nat.le_one_iff_eq_zero_or_eq_one.1 hd with rfl | rfl
  · rw [readParameters]
    exact fails_failNext _
  · rw [readParameters]
    apply Fails.placing
    simp only [Fails, runFrom_bind, runFrom_skipBlank hw rfl h.split.1, runFrom_enter_spent le_rfl]
    exact ⟨_, _, rfl⟩

theorem refuses_readEntries_spent {d : Nat} (hd : d ≤ 1) (ys : List UInt8) :
    Refuses (readEntries d) (91 :: ys) := by
  intro b i ws hw h
  rcases Nat.le_one_iff_eq_zero_or_eq_one.1 hd with rfl | rfl
  · rw [readEntries]
    exact fails_failNext _
  · rw [readEntries]
    apply Fails.placing
    simp only [Fails, runFrom_bind, runFrom_skipBlank hw rfl h.split.1, runFrom_enter_spent le_rfl]
    exact ⟨_, _, rfl⟩

theorem refuses_readEntry_spent {d : Nat} (hd : d ≤ 1) (ys : List UInt8) :
    Refuses (readEntry d) (91 :: ys) := by
  intro b i ws hw h
  rcases Nat.le_one_iff_eq_zero_or_eq_one.1 hd with rfl | rfl
  · rw [readEntry]
    exact fails_failNext _
  · rw [readEntry]
    apply Fails.placing
    simp only [Fails, runFrom_bind, runFrom_skipBlank hw rfl h.split.1, runFrom_enter_spent le_rfl]
    exact ⟨_, _, rfl⟩

theorem textBytes_pretty_arr (k : Nat) :
    ∀ xs : List Json, ∃ ys, textBytes (pretty k (.arr xs)) = 91 :: ys
  | [] => ⟨[93], rfl⟩
  | _ :: _ => ⟨_, textBytes_pretty_arr_cons k _ _⟩

theorem textBytes_pretty_parameters (k : Nat) (p : Parameters) :
    ∃ ys, textBytes (pretty k p.toJson) = 123 :: ys :=
  ⟨_, textBytes_pretty_obj_two k _ _ _ _⟩

theorem textBytes_prettyListTo_cons (k : Nat) (x : Json) (xs : List Json) :
    ∃ rest, textBytes (prettyListTo "" k (x :: xs)) =
      List.replicate (2 * k) 32 ++ textBytes (pretty k x) ++ rest := by
  cases xs with
  | nil => exact ⟨[], by rw [textBytes_prettyListTo_one, List.append_nil]⟩
  | cons y ys =>
    exact ⟨[44, 10] ++ textBytes (prettyListTo "" k (y :: ys)), by
      rw [textBytes_prettyListTo_cons_cons, List.append_assoc _ [44, 10]]⟩

/-! ## Containers -/

/-- The elements of an array are read in turn until one is refused, which fails the array. -/
theorem fails_elements {elem : Reader α} {k : Nat} {js : List Json} (h : RefusesAmong elem k js)
    (hopen : ∀ j ∈ js, ∃ ys, textBytes (pretty k j) = 91 :: ys) :
    ∀ (fuel : Nat) (_ : js.length < fuel) (first : Bool) {ls : List UInt8} (_ : Lead first ls)
      (acc : List α) {i : Nat}, At b i (ls ++ textBytes (prettyListTo "" k js)) →
      Fails (elements elem fuel first acc) b i := by
  induction h with
  | @here j js hj =>
    intro fuel hfuel first ls hl acc i hat
    obtain ⟨ys, hys⟩ := hopen j (List.mem_cons_self ..)
    obtain ⟨rest, hrest⟩ := textBytes_prettyListTo_cons k j js
    obtain ⟨fuel, rfl⟩ : ∃ f, fuel = f + 1 := ⟨fuel - 1, by simp at hfuel; omega⟩
    rw [hrest] at hat
    obtain ⟨h₁, h₂, -⟩ := at_element hys (by simpa only [List.append_assoc] using hat)
    obtain ⟨e, l, hf⟩ := hj blanks_nil h₂
    exact ⟨e, l, by simp only [elements, runFrom_bind,
      runFrom_nextElement_lead hl (blanks_replicate _) rfl (by decide) (by decide) h₁,
      List.length_replicate, if_true, hf]⟩
  | @next j js a hj hrest ih =>
    intro fuel hfuel first ls hl acc i hat
    obtain ⟨ys, hys⟩ := hopen j (List.mem_cons_self ..)
    obtain ⟨j', js', rfl⟩ := List.exists_cons_of_ne_nil hrest.ne_nil
    obtain ⟨fuel, rfl⟩ : ∃ f, fuel = f + 1 := ⟨fuel - 1, by simp at hfuel; omega⟩
    rw [textBytes_prettyListTo_cons_cons] at hat
    have hat' : At b i (ls ++ List.replicate (2 * k) 32 ++ textBytes (pretty k j) ++
        ([44, 10] ++ textBytes (prettyListTo "" k (j' :: js')))) := by
      simpa only [List.append_assoc] using hat
    obtain ⟨h₁, h₂, h₃⟩ := at_element hys hat'
    -- the element is read, and the rest of the array, behind a comma, fails
    obtain ⟨e, l, hf⟩ := ih (fun j hj => hopen j (List.mem_cons_of_mem _ hj)) fuel
      (by simp at hfuel ⊢; omega) false ⟨[], [10], rfl, blanks_nil, blanks_newline 0⟩ (a :: acc) h₃
    exact ⟨e, l, by simp only [elements, runFrom_bind,
      runFrom_nextElement_lead hl (blanks_replicate _) rfl (by decide) (by decide) h₁,
      List.length_replicate, if_true, hj blanks_nil h₂, List.length_nil, Nat.add_zero, hf]⟩

theorem depth_toJson_scalar {v : ParameterValue} (hs : ∀ n es, v ≠ .nested n es) :
    v.toJson.depth = 1 := by
  cases v with
  | nested n es => exact absurd rfl (hs n es)
  | _ => simp only [toJson, Json.depth, Json.fieldsDepth, max_self]

/-- A bool, integer, real or string value is refused when the budget is spent at its brace, or
when it is not storable: an integer outside 64 bits, a real that is not finite. -/
theorem refuses_readValue_scalar {v : ParameterValue} {d : Nat}
    (hv : ¬ (v.Storable ∧ v.toJson.depth < d)) (hs : ∀ n es, v ≠ .nested n es) (k : Nat) :
    Refuses (readValue d) (textBytes (pretty k v.toJson)) := by
  rcases Nat.lt_or_ge d 2 with hd | hd
  · obtain ⟨ys, hys⟩ := textBytes_pretty_toJson k v
    rw [hys]
    exact refuses_readValue_spent (by omega) ys
  have hv' : ¬ v.Storable := fun h => hv ⟨h, by rw [depth_toJson_scalar hs]; omega⟩
  intro b i ws hw h
  obtain ⟨d, rfl⟩ : ∃ e, d = e + 2 := ⟨d - 2, by omega⟩
  cases v with
  | bool x => exact absurd trivial hv'
  | str s => exact absurd trivial hv'
  | nested n es => exact absurd rfl (hs n es)
  | int n =>
    rw [toJson, textBytes_pretty_obj_one, pretty_int] at h
    obtain ⟨j, h₁, h₂, h₃, h₄, h₅, -, -⟩ := runFrom_variant_steps hw (by decide) h d
    obtain ⟨e, l, hf⟩ := fails_readInt blanks_space hv' endsNumber_newline h₅
    exact ⟨e, l, by simp only [readValue, runFrom_bind, h₁, h₂, h₃, h₄, runFrom_map, hf]⟩
  | real x =>
    rw [toJson, textBytes_pretty_obj_one, pretty_float_null (by simpa [Storable] using hv')] at h
    obtain ⟨j, h₁, h₂, h₃, h₄, h₅, -, -⟩ := runFrom_variant_steps hw (by decide) h d
    obtain ⟨e, l, hf⟩ := fails_readReal_null blanks_space h₅.left
    exact ⟨e, l, by simp only [readValue, runFrom_bind, h₁, h₂, h₃, h₄, runFrom_map, hf]⟩

theorem refuses_readValue_nested {d k : Nat} {n : String} {es : List (String × ParameterValue)}
    (hp : Refuses (readParameters (d + 1))
      (textBytes (pretty (k + 1) (Parameters.toJson ⟨n, es⟩)))) :
    Refuses (readValue (d + 2)) (textBytes (pretty k (nested n es).toJson)) := by
  intro b i ws hw h
  rw [show (nested n es).toJson = .obj [("Nested", Parameters.toJson ⟨n, es⟩)] from rfl,
    textBytes_pretty_obj_one] at h
  obtain ⟨j, h₁, h₂, h₃, h₄, h₅, -, -⟩ := runFrom_variant_steps hw (by decide) h d
  obtain ⟨e, l, hf⟩ := hp blanks_space h₅.left
  -- the variant name falls to the last pattern, past the literal ones
  exact ⟨e, l, by simp +decide only [readValue, runFrom_bind, h₁, h₂, h₃, h₄, runFrom_map, hf]⟩

theorem refuses_readParameters {d k : Nat} {n : String} {es : List (String × ParameterValue)}
    (hes : Refuses (readEntries (d + 1)) (textBytes (pretty (k + 1) (.arr (entriesToJson es))))) :
    Refuses (readParameters (d + 2)) (textBytes (pretty k (Parameters.toJson ⟨n, es⟩))) := by
  intro b i ws hw h
  obtain ⟨p₂, p₃, p₄, h₁, h₂, h₃, h₄, h₅, h₆, hat, -⟩ := runFrom_parameters_steps hw h
  obtain ⟨e, l, h₇⟩ := hes blanks_space hat.left.left
  -- two members are read: `name`, and `entries`, whose array is refused
  obtain ⟨s, hs⟩ : ∃ s, b.size = s + 1 := ⟨b.size - 1, by
    have := hat.le_size (by simp)
    omega⟩
  rw [readParameters]
  apply Fails.placing
  simp only [Fails, runFrom_bind, h₁, runFrom_enter (show 2 ≤ d + 2 by omega)]
  exact Fails.closing ⟨e, l, by simp +decide only [runFrom_bind, runFrom_read, hs, readFields, h₂,
    h₃, h₄, h₅, h₆, h₇, Option.isSome_none, Bool.false_eq_true, if_false]⟩ _

theorem refuses_readEntries {d k : Nat} {es : List (String × ParameterValue)}
    (hes : RefusesAmong (readEntry (d + 1)) (k + 1) (entriesToJson es)) :
    Refuses (readEntries (d + 2)) (textBytes (pretty k (.arr (entriesToJson es)))) := by
  intro b i ws hw h
  obtain ⟨x, xs, hx⟩ := List.exists_cons_of_ne_nil hes.ne_nil
  have hopen := entriesToJson_open (k + 1) es
  rw [hx] at hes hopen h
  obtain ⟨h₁, h₂, hfuel⟩ := runFrom_entries_steps hw hopen h
  rw [readEntries]
  apply Fails.placing
  simp only [Fails, runFrom_bind, h₁, runFrom_enter (show 2 ≤ d + 2 by omega), runFrom_read]
  exact Fails.closing (fails_elements hes hopen (b.size + 1) hfuel true (blanks_newline 0) []
    h₂.left.left) _

theorem refuses_readEntry {d k : Nat} {key : String} {v : ParameterValue}
    (hv : Refuses (readValue (d + 1)) (textBytes (pretty (k + 1) v.toJson))) :
    Refuses (readEntry (d + 2)) (textBytes (pretty k (.arr [.str key, v.toJson]))) := by
  intro b i ws hw h
  obtain ⟨a, j, h₁, h₂, h₃, h₄, hJ, -⟩ :=
    runFrom_entry_steps hw (textBytes_pretty_toJson (k + 1) v) h
  obtain ⟨e, l, h₅⟩ := hv blanks_nil (by simpa only [List.nil_append] using hJ)
  rw [readEntry]
  apply Fails.placing
  simp only [Fails, runFrom_bind, h₁, runFrom_enter (show 2 ≤ d + 2 by omega)]
  exact Fails.closing ⟨e, l, by simp only [runFrom_bind, h₂, Bool.not_true, Bool.false_eq_true,
    if_false, h₃, h₄, h₅]⟩ _

/-! ## Every value that is not storable -/

mutual

/-- A value that is not storable within the budget `d` is refused: the budget is spent at one of
its containers, or one of its numbers does not fit. -/
theorem refuses_value : ∀ (v : ParameterValue) (k : Nat) {d : Nat},
    ¬ (v.Storable ∧ v.toJson.depth < d) → Refuses (readValue d) (textBytes (pretty k v.toJson))
  | .nested n es, k, d, hv => by
    rw [depth_toJson_nested] at hv
    -- the budget is spent at the value's brace, the collection's, the entries' bracket, or later
    rcases (show d ≤ 1 ∨ d = 2 ∨ d = 3 ∨ 4 ≤ d by omega) with hd | rfl | rfl | hd
    · obtain ⟨ys, hys⟩ := textBytes_pretty_toJson k (nested n es)
      rw [hys]
      exact refuses_readValue_spent hd ys
    · obtain ⟨ys, hys⟩ := textBytes_pretty_parameters (k + 1) ⟨n, es⟩
      exact refuses_readValue_nested (d := 0) (hys ▸ refuses_readParameters_spent le_rfl ys)
    · obtain ⟨ys, hys⟩ := textBytes_pretty_arr (k + 2) (entriesToJson es)
      exact refuses_readValue_nested (d := 1)
        (refuses_readParameters (d := 0) (hys ▸ refuses_readEntries_spent le_rfl ys))
    · obtain ⟨d, rfl⟩ : ∃ e, d = e + 4 := ⟨d - 4, by omega⟩
      exact refuses_readValue_nested (refuses_readParameters (refuses_readEntries
        (refuses_entries es (k + 3) (d := d) fun h => hv ⟨h.1, by omega⟩)))
  | .bool _, k, _, hv | .int _, k, _, hv | .real _, k, _, hv | .str _, k, _, hv =>
    refuses_readValue_scalar hv (fun _ _ h => by cases h) k

/-- Entries that are not all storable within the budget of an entry come to one that is refused. -/
theorem refuses_entries : ∀ (es : List (String × ParameterValue)) (k : Nat) {d : Nat},
    ¬ (EntriesStorable es ∧ listDepth (entriesToJson es) < d + 1) →
      RefusesAmong (readEntry (d + 1)) k (entriesToJson es)
  | [], _, _, hes => absurd ⟨trivial, Nat.succ_pos _⟩ hes
  | (key, v) :: es, k, d, hes => by
    rw [listDepth_entriesToJson_cons] at hes
    have h₁ := one_le_depth_toJson v
    by_cases hv : v.Storable ∧ v.toJson.depth + 1 < d + 1
    · -- this entry is read, and a later one is refused
      obtain ⟨d, rfl⟩ : ∃ e, d = e + 1 := ⟨d - 1, by omega⟩
      exact .next (reads_readEntry (reads_value v (k + 1) hv.1 (by omega)))
        (refuses_entries es k fun h => hes ⟨⟨hv.1, h.1⟩, by omega⟩)
    · rcases Nat.eq_zero_or_pos d with rfl | hd
      · obtain ⟨ys, hys⟩ := textBytes_pretty_arr k [.str key, v.toJson]
        exact .here (hys ▸ refuses_readEntry_spent le_rfl ys)
      · obtain ⟨d, rfl⟩ : ∃ e, d = e + 1 := ⟨d - 1, by omega⟩
        exact .here (refuses_readEntry (refuses_value v (k + 1) fun h => hv ⟨h.1, by omega⟩))

end

end Reader

open ParameterValue Reader in
/-- The text of a collection whose numbers do not all fit in 64 bits, or that nests more than 127
containers deep, is refused with a JSON error. -/
theorem Parameters.fromJsonText_toJsonText_error {p : Parameters}
    (hp : ¬ (EntriesStorable p.entries ∧ p.toJson.depth ≤ 127)) :
    ∃ m, Parameters.fromJsonText p.toJsonText = .error (.json m) := by
  rw [depth_toJson_parameters] at hp
  -- the collection is read with the budget 128, its entries with 127, each entry with 126
  have hread : Fails (readParameters 128) p.toJsonText.toUTF8 0 :=
    refuses_readParameters (d := 126) (k := 0) (n := p.name) (refuses_readEntries (d := 125)
      (refuses_entries p.entries 2 (d := 125) fun h => hp ⟨h.1, by omega⟩)) blanks_nil
      (by rw [List.nil_append]; exact at_toUTF8 _)
  have hdoc : Fails document p.toJsonText.toUTF8 0 := by
    unfold document
    exact hread.bind _
  obtain ⟨e, j, hf⟩ := hdoc
  unfold runFrom at hf
  exact ⟨e.render p.toJsonText.toUTF8, by simp only [Parameters.fromJsonText, hf]⟩

/-- A collection is read back from its text exactly as it was (names, order of entries, variants,
the bits of every real) when its integers fit in 64 bits, its reals are finite and its text nests
at most 127 containers deep, that is at most 31 levels of nested collections. Every other
collection is still written, and reading its text back fails with a JSON error: one with a real
that is NaN or infinite, written as `null`, or one nested deeper. -/
theorem Parameters.fromJsonText_toJsonText_outcome (p : Parameters) :
    (ParameterValue.EntriesStorable p.entries ∧ p.toJson.depth ≤ 127 →
      Parameters.fromJsonText p.toJsonText = .ok p) ∧
    (¬ (ParameterValue.EntriesStorable p.entries ∧ p.toJson.depth ≤ 127) →
      ∃ m, Parameters.fromJsonText p.toJsonText = .error (.json m)) :=
  ⟨fun h => Parameters.fromJsonText_toJsonText h.1 h.2, Parameters.fromJsonText_toJsonText_error⟩

/-- `n` collections named `p`, each the only entry of the one around it. -/
def Parameters.nestedChain : Nat → Parameters
  | 0 => ⟨"p", []⟩
  | n + 1 => ⟨"p", [("p", .ofParameters (Parameters.nestedChain n))]⟩

theorem Parameters.entriesStorable_nestedChain :
    ∀ n, ParameterValue.EntriesStorable (Parameters.nestedChain n).entries
  | 0 => trivial
  | n + 1 => ⟨Parameters.entriesStorable_nestedChain n, trivial⟩

theorem Parameters.depth_nestedChain :
    ∀ n, (Parameters.nestedChain n).toJson.depth = 4 * n + 2
  | 0 => rfl
  | n + 1 => by
    have ih := Parameters.depth_nestedChain n
    simp only [Parameters.nestedChain, Parameters.toJson, ParameterValue.ofParameters,
      ParameterValue.entriesToJson, ParameterValue.toJson, Json.depth, Json.fieldsDepth,
      Json.listDepth] at ih ⊢
    omega

/-- Collections nested 32 deep are storable, but their text nests 130 containers and is refused. -/
theorem Parameters.nestedChain_refused :
    ParameterValue.EntriesStorable (Parameters.nestedChain 32).entries ∧
      ∃ m, Parameters.fromJsonText (Parameters.nestedChain 32).toJsonText = .error (.json m) :=
  ⟨Parameters.entriesStorable_nestedChain 32,
    Parameters.fromJsonText_toJsonText_error fun h => by
      rw [Parameters.depth_nestedChain] at h
      omega⟩

end MixedFem
