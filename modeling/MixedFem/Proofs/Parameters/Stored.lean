import MixedFem.Proofs.Json.Containers
import MixedFem.Proofs.Json.Floats

/-!
# The stored layout read back

`Parameters.toJsonText` writes a collection as indented JSON and `Parameters.fromJsonText` reads
it back. The reader gives every container it enters a budget one less than the one around it and
refuses a container once the budget is spent, so a text reads back when its containers nest at
most 127 deep; and the numbers it reads back are those of 64 bits: integers from `-2^63` up to
`2^63 - 1` and finite reals.

* `ParameterValue.Storable` : the integers of a value fit in 64 bits and its reals are finite;
* `Reader.runFrom_variantName`, `Reader.runFrom_variant_steps` : the steps of reading
  `{"V": payload}`;
* `Reader.reads_readValue_scalar`, `reads_readValue_nested`, `reads_readEntry`,
  `reads_readEntries`, `reads_readParameters` : each reader reads the layout of its part, given
  that the readers it calls read theirs;
* `Reader.reads_value`, `Reader.reads_entries` : every storable value, within the budget;
* `Parameters.fromJsonText_toJsonText` : a collection read back from its text.
-/

namespace MixedFem

namespace ParameterValue

mutual

/-- The integers of a value fit in 64 bits and its reals are finite, at every level. -/
def Storable : ParameterValue → Prop
  | .int i => -2 ^ 63 ≤ i ∧ i < 2 ^ 63
  | .real x => x.isFinite = true
  | .nested _ es => EntriesStorable es
  | _ => True

/-- Every value of the entries is storable. -/
def EntriesStorable : List (String × ParameterValue) → Prop
  | [] => True
  | (_, v) :: es => Storable v ∧ EntriesStorable es

end

theorem textBytes_pretty_toJson (k : Nat) (v : ParameterValue) :
    ∃ ys, Reader.textBytes (Json.pretty k v.toJson) = 123 :: ys := by
  cases v <;> exact ⟨_, Json.textBytes_pretty_obj_one _ _ _⟩

end ParameterValue

namespace Reader

open Json ParameterValue

variable {b : ByteArray} {i : Nat}

theorem endsNumber_newline : EndsNumber 10 := ⟨rfl, by decide, by decide, by decide⟩

theorem runFrom_variantName {ws : List UInt8} (hw : Blanks ws) {s : String} (hs : s ∈ variantNames)
    (rest : List UInt8) (h : At b i (ws ++ textBytes (quote s) ++ rest)) :
    runFrom variantName b i = (.ok s, i + ws.length + (textBytes (quote s)).length) := by
  rw [textBytes_quote] at h ⊢
  have h' : At b i ((ws ++ [34]) ++ (escapedBytes s.toList ++ [34] ++ rest)) := by
    simpa only [List.append_assoc, List.cons_append, List.nil_append] using h
  have hstr := runFrom_string s rest
    (h'.right.of_eq (j := i + ws.length + 1) (by simp only [List.length_append]; rfl))
  apply placing_ok
  simp only [runFrom_bind, runFrom_skipBlank hw rfl h'.left, runFrom_eat, hstr,
    List.elem_eq_mem, hs, decide_true, if_true, runFrom_pure, List.length_cons, List.length_append,
    List.length_nil]
  congr 1
  omega

/-- The steps of reading a value `{"V": payload}` other than the payload, with `j` where the
colon stands. -/
theorem runFrom_variant_steps {ws : List UInt8} (hw : Blanks ws) {k : Nat} {V : String}
    (hV : V ∈ variantNames) {P : List UInt8}
    (h : At b i (ws ++ ([123, 10] ++ List.replicate (2 * (k + 1)) 32 ++ textBytes (quote V) ++
      [58, 32] ++ P ++ 10 :: List.replicate (2 * k) 32 ++ [125]))) (d : Nat) :
    ∃ j, runFrom skipBlank b i = (.ok (some 123), i + ws.length) ∧
      runFrom (enter (d + 2)) b (i + ws.length) = (.ok (), i + ws.length + 1) ∧
      runFrom variantName b (i + ws.length + 1) = (.ok V, j) ∧
      runFrom colon b j = (.ok (), j + 1) ∧
      At b (j + 1) ([32] ++ P ++ [10]) ∧
      runFrom skipBlank b (j + 1 + 1 + P.length) =
        (.ok (some 125), j + 1 + 1 + P.length + (2 * k + 1)) ∧
      j + 1 + 1 + P.length + (2 * k + 1) + 1 = i + ws.length + ([123, 10] ++
        List.replicate (2 * (k + 1)) 32 ++ textBytes (quote V) ++ [58, 32] ++ P ++
        10 :: List.replicate (2 * k) 32 ++ [125]).length := by
  have h' : At b i (ws ++ [123] ++ (10 :: List.replicate (2 * (k + 1)) 32 ++ textBytes (quote V) ++
      [58] ++ [32] ++ P ++ [10] ++ List.replicate (2 * k) 32 ++ [125])) := by
    simpa only [List.append_assoc, List.cons_append, List.nil_append] using h
  refine ⟨i + ws.length + 1 + 2 * (k + 1) + 1 + (textBytes (quote V)).length,
    runFrom_skipBlank hw rfl (At.left h'), runFrom_enter (by omega), ?_, ?_, ?_, ?_, ?_⟩
  · have := runFrom_variantName (blanks_newline (2 * (k + 1))) hV [58]
      (At.sub (ws ++ [123]) _ _ (j := i + ws.length + 1) (by simpa only [List.append_assoc,
        List.cons_append, List.nil_append] using h) (by simp; omega))
    rw [this]
    simp only [List.length_cons, List.length_replicate]
    congr 1
  · exact runFrom_colon blanks_nil (At.sub (ws ++ [123] ++ 10 :: List.replicate (2 * (k + 1)) 32 ++
      textBytes (quote V)) _ _ (by simpa only [List.append_assoc, List.cons_append,
        List.nil_append] using h) (by simp; omega))
  · exact At.sub (ws ++ [123] ++ 10 :: List.replicate (2 * (k + 1)) 32 ++
      textBytes (quote V) ++ [58]) _ _ (by simpa only [List.append_assoc, List.cons_append,
        List.nil_append] using h) (by simp; omega)
  · have := runFrom_skipBlank (blanks_newline (2 * k)) rfl (At.sub (ws ++ [123] ++
      10 :: List.replicate (2 * (k + 1)) 32 ++ textBytes (quote V) ++ [58, 32] ++ P) _
      [] (j := i + ws.length + 1 + 2 * (k + 1) + 1 + (textBytes (quote V)).length + 1 + 1 +
        P.length) (by simpa only [List.append_assoc, List.cons_append, List.nil_append,
        List.append_nil] using h) (by simp; omega))
    rw [this]
    simp only [List.length_cons, List.length_replicate]
  · simp only [List.length_append, List.length_cons, List.length_replicate, List.length_nil]
    omega

theorem blanks_space : Blanks [32] := blanks_replicate 1

theorem reads_readValue_scalar {v : ParameterValue} (hv : v.Storable)
    (hs : ∀ n es, v ≠ .nested n es) {d : Nat} (hd : 2 ≤ d) (k : Nat) :
    Reads (readValue d) (textBytes (pretty k v.toJson)) v := by
  intro b i ws hw h
  obtain ⟨d, rfl⟩ : ∃ e, d = e + 2 := ⟨d - 2, by omega⟩
  cases v with
  | bool x =>
    rw [toJson, textBytes_pretty_obj_one, pretty_bool] at h ⊢
    obtain ⟨j, h₁, h₂, h₃, h₄, h₅, h₆, hj⟩ := runFrom_variant_steps hw (by decide) h d
    simp only [readValue, runFrom_bind, h₁, h₂, h₃, h₄, runFrom_map,
      runFrom_readBool blanks_space x h₅.left, List.length_singleton, h₆, runFrom_eat, runFrom_pure]
    exact Prod.ext rfl hj
  | int n =>
    rw [toJson, textBytes_pretty_obj_one, pretty_int] at h ⊢
    obtain ⟨j, h₁, h₂, h₃, h₄, h₅, h₆, hj⟩ := runFrom_variant_steps hw (by decide) h d
    simp only [readValue, runFrom_bind, h₁, h₂, h₃, h₄, runFrom_map,
      runFrom_readInt blanks_space hv.1 hv.2 endsNumber_newline h₅, List.length_singleton, h₆,
      runFrom_eat, runFrom_pure]
    exact Prod.ext rfl hj
  | real x =>
    rw [toJson, textBytes_pretty_obj_one, pretty_float hv] at h ⊢
    obtain ⟨j, h₁, h₂, h₃, h₄, h₅, h₆, hj⟩ := runFrom_variant_steps hw (by decide) h d
    simp only [readValue, runFrom_bind, h₁, h₂, h₃, h₄, runFrom_map,
      runFrom_readReal blanks_space hv endsNumber_newline h₅, List.length_singleton, h₆,
      runFrom_eat, runFrom_pure]
    exact Prod.ext rfl hj
  | str s =>
    rw [toJson, textBytes_pretty_obj_one, pretty_str] at h ⊢
    obtain ⟨j, h₁, h₂, h₃, h₄, h₅, h₆, hj⟩ := runFrom_variant_steps hw (by decide) h d
    simp only [readValue, runFrom_bind, h₁, h₂, h₃, h₄, runFrom_map,
      runFrom_readString blanks_space s [10] h₅, List.length_singleton, h₆, runFrom_eat,
      runFrom_pure]
    exact Prod.ext rfl hj
  | nested n es => exact absurd rfl (hs n es)

theorem reads_readValue_nested {d k : Nat} {n : String} {es : List (String × ParameterValue)}
    (hp : Reads (readParameters (d + 1)) (textBytes (pretty (k + 1) (Parameters.toJson ⟨n, es⟩)))
      ⟨n, es⟩) :
    Reads (readValue (d + 2)) (textBytes (pretty k (nested n es).toJson)) (nested n es) := by
  intro b i ws hw h
  rw [show (nested n es).toJson = .obj [("Nested", Parameters.toJson ⟨n, es⟩)] from rfl,
    textBytes_pretty_obj_one] at h ⊢
  obtain ⟨j, h₁, h₂, h₃, h₄, h₅, h₆, hj⟩ := runFrom_variant_steps hw (by decide) h d
  -- the variant name falls to the last pattern, past the literal ones
  simp +decide only [readValue, runFrom_bind, h₁, h₂, h₃, h₄, runFrom_map, hp blanks_space h₅.left,
    List.length_singleton, h₆, runFrom_eat, runFrom_pure, ofParameters]
  exact Prod.ext rfl hj

/-- The steps of reading an entry `[key, x]` other than its value `x`, with `j` where the value
starts. -/
theorem runFrom_entry_steps {ws : List UInt8} (hw : Blanks ws) {k : Nat} {key : String} {x : Json}
    (hx : ∃ ys, textBytes (pretty (k + 1) x) = 123 :: ys)
    (h : At b i (ws ++ textBytes (pretty k (.arr [.str key, x])))) :
    ∃ a j, runFrom skipBlank b i = (.ok (some 91), i + ws.length) ∧
      runFrom (nextElement true) b (i + ws.length + 1) = (.ok true, a) ∧
      runFrom readString b a = (.ok key, a + (textBytes (quote key)).length) ∧
      runFrom (nextElement false) b (a + (textBytes (quote key)).length) = (.ok true, j) ∧
      At b j (textBytes (pretty (k + 1) x)) ∧
      runFrom closeArray b (j + (textBytes (pretty (k + 1) x)).length) =
        (.ok (), i + ws.length + (textBytes (pretty k (.arr [.str key, x]))).length) := by
  obtain ⟨ys, hys⟩ := hx
  rw [textBytes_pretty_arr_cons, textBytes_prettyListTo_cons_cons, textBytes_prettyListTo_one,
    pretty_str] at h ⊢
  -- the places of `[`, the key, the comma, the value and `]`
  have hat : At b i (ws ++ [91] ++ (10 :: List.replicate (2 * (k + 1)) 32) ++
      textBytes (quote key) ++ [44] ++ (10 :: List.replicate (2 * (k + 1)) 32) ++
      textBytes (pretty (k + 1) x) ++ (10 :: List.replicate (2 * k) 32) ++ [93]) := by
    simpa only [List.append_assoc, List.cons_append, List.nil_append] using h
  set J := textBytes (pretty (k + 1) x)
  set q := textBytes (quote key)
  obtain ⟨zs, hzs⟩ : ∃ zs, q = 34 :: zs := ⟨_, textBytes_quote key⟩
  refine ⟨i + ws.length + 1 + (2 * (k + 1) + 1),
    i + ws.length + 1 + (2 * (k + 1) + 1) + q.length + 1 + (2 * (k + 1) + 1),
    runFrom_skipBlank hw rfl (At.left (by simpa only [List.append_assoc] using hat)), ?_, ?_, ?_,
    ?_, ?_⟩
  · rw [runFrom_nextElement_first (c := 34) (blanks_newline _) rfl (by decide) (by decide)
      (At.sub (ws ++ [91]) _ _ (j := i + ws.length + 1) (by
        simpa only [hzs, List.append_assoc, List.cons_append, List.nil_append] using hat)
        (by simp only [List.length_append, List.length_singleton]; omega))]
    simp only [List.length_cons, List.length_replicate]
  · have hq := At.sub (ws ++ [91] ++ 10 :: List.replicate (2 * (k + 1)) 32) q _
      (j := i + ws.length + 1 + (2 * (k + 1) + 1)) (by
        simpa only [List.append_assoc, List.cons_append, List.nil_append] using hat)
      (by simp only [List.length_append, List.length_cons, List.length_replicate,
        List.length_nil]; omega)
    rw [runFrom_readString blanks_nil key [] (by simpa only [List.nil_append, List.append_nil] using hq)]
    rfl
  · rw [runFrom_nextElement_comma (c := 123) blanks_nil (blanks_newline _) rfl (by decide)
      (At.sub (ws ++ [91] ++ 10 :: List.replicate (2 * (k + 1)) 32 ++ q) _ _
        (j := i + ws.length + 1 + (2 * (k + 1) + 1) + q.length) (by
        simpa only [hys, List.append_assoc, List.cons_append, List.nil_append] using hat)
        (by simp only [List.length_append, List.length_cons, List.length_replicate,
          List.length_nil]; omega))]
    simp only [List.length_nil, List.length_cons, List.length_replicate, Nat.add_zero]
  · exact At.sub (ws ++ [91] ++ 10 :: List.replicate (2 * (k + 1)) 32 ++
      q ++ 44 :: 10 :: List.replicate (2 * (k + 1)) 32) J _ (by
        simpa only [List.append_assoc, List.cons_append, List.nil_append] using hat)
      (by simp only [List.length_append, List.length_cons, List.length_replicate,
        List.length_nil]; omega)
  · rw [runFrom_closeArray (blanks_newline (2 * k)) (At.sub (ws ++ [91] ++
      10 :: List.replicate (2 * (k + 1)) 32 ++ q ++ 44 :: 10 :: List.replicate (2 * (k + 1)) 32 ++ J) _
      [] (by simpa only [List.append_assoc, List.cons_append, List.nil_append,
        List.append_nil] using hat)
      (j := i + ws.length + 1 + (2 * (k + 1) + 1) + q.length + 1 + (2 * (k + 1) + 1) + J.length)
      (by simp only [List.length_append, List.length_cons, List.length_replicate,
        List.length_nil]; omega))]
    simp only [List.length_cons, List.length_replicate, List.length_append, List.length_nil]
    congr 1
    omega

theorem reads_readEntry {d k : Nat} {key : String} {v : ParameterValue}
    (hv : Reads (readValue (d + 1)) (textBytes (pretty (k + 1) v.toJson)) v) :
    Reads (readEntry (d + 2)) (textBytes (pretty k (.arr [.str key, v.toJson]))) (key, v) := by
  intro b i ws hw h
  obtain ⟨a, j, h₁, h₂, h₃, h₄, hJ, h₆⟩ :=
    runFrom_entry_steps hw (textBytes_pretty_toJson (k + 1) v) h
  have h₅ := hv blanks_nil (by simpa only [List.nil_append] using hJ)
  rw [readEntry]
  apply placing_ok
  simp only [runFrom_bind, h₁, runFrom_enter (show 2 ≤ d + 2 by omega)]
  refine runFrom_closing (a := (key, v)) ?_ h₆
  simp only [runFrom_bind, h₂, Bool.not_true, Bool.false_eq_true, if_false, runFrom_pure, h₃, h₄,
    h₅, List.length_nil, Nat.add_zero]

theorem entriesToJson_open (k : Nat) :
    ∀ (es : List (String × ParameterValue)), ∀ j ∈ entriesToJson es,
      ∃ ys, textBytes (pretty k j) = 91 :: ys
  | [], _, hj => absurd hj List.not_mem_nil
  | (_, _) :: es, j, hj => by
    rw [entriesToJson, List.mem_cons] at hj
    rcases hj with rfl | hj
    · exact ⟨_, textBytes_pretty_arr_cons k _ _⟩
    · exact entriesToJson_open k es j hj

/-- The opening bracket of a nonempty array, and its elements behind it, fewer than there are
bytes. -/
theorem runFrom_entries_steps {ws : List UInt8} (hw : Blanks ws) {k : Nat} {x : Json}
    {xs : List Json} (hopen : ∀ j ∈ x :: xs, ∃ ys, textBytes (pretty (k + 1) j) = 91 :: ys)
    (h : At b i (ws ++ textBytes (pretty k (.arr (x :: xs))))) :
    runFrom skipBlank b i = (.ok (some 91), i + ws.length) ∧
      At b (i + ws.length + 1) ([10] ++ textBytes (prettyListTo "" (k + 1) (x :: xs)) ++
        10 :: List.replicate (2 * k) 32 ++ [93]) ∧
      (x :: xs).length < b.size + 1 := by
  rw [textBytes_pretty_arr_cons] at h
  set L := textBytes (prettyListTo "" (k + 1) (x :: xs))
  have hsize : i + ws.length + 1 + 1 + L.length ≤ b.size := by
    have := h.le_size (by simp)
    simp only [List.length_append, List.length_cons, List.length_nil] at this
    omega
  have hlen : (x :: xs).length ≤ L.length :=
    length_le_textBytes_prettyListTo fun j hj => by
      obtain ⟨ys, hys⟩ := hopen j hj
      rw [hys]
      exact List.cons_ne_nil _ _
  refine ⟨runFrom_skipBlank hw rfl (At.left (by
    simpa only [List.append_assoc, List.cons_append, List.nil_append] using h :
      At b i (ws ++ [91] ++ (10 :: L ++ 10 :: List.replicate (2 * k) 32 ++ [93])))), ?_, by omega⟩
  exact At.sub (ws ++ [91]) _ [] (by
    simpa only [List.append_assoc, List.cons_append, List.nil_append, List.append_nil] using h)
    (by simp only [List.length_append, List.length_cons, List.length_nil]; omega)

theorem reads_readEntries {d k : Nat} {es : List (String × ParameterValue)}
    (hes : List.Forall₂ (fun j e => Reads (readEntry (d + 1)) (textBytes (pretty (k + 1) j)) e)
      (entriesToJson es) es) :
    Reads (readEntries (d + 2)) (textBytes (pretty k (.arr (entriesToJson es)))) es := by
  intro b i ws hw h
  rw [readEntries]
  apply placing_ok
  cases es with
  | nil =>
    have hb : textBytes (pretty k (.arr (entriesToJson []))) = [91, 93] := rfl
    rw [hb] at h ⊢
    have h₁ := runFrom_skipBlank hw rfl (At.left (by
      simpa only [List.append_assoc, List.cons_append, List.nil_append] using h :
        At b i (ws ++ [91] ++ [93])))
    have h₂ : At b (i + ws.length + 1) ([] ++ [93]) :=
      At.sub (ws ++ [91]) _ [] (by
        simpa only [List.append_assoc, List.cons_append, List.nil_append, List.append_nil] using h)
        (by simp only [List.length_append, List.length_cons, List.length_nil]; omega)
    simp only [runFrom_bind, h₁, runFrom_enter (show 2 ≤ d + 2 by omega), runFrom_read]
    refine (runFrom_closing (a := []) ?_ (runFrom_closeArray blanks_nil h₂)).trans ?_
    · simp only [elements, runFrom_bind, runFrom_nextElement_close blanks_nil true h₂,
        Bool.false_eq_true, if_false, runFrom_pure, List.reverse_nil, List.length_nil, Nat.add_zero]
    · simp only [List.length_nil, List.length_cons]
  | cons e es =>
    obtain ⟨x, xs, hx⟩ : ∃ x xs, entriesToJson (e :: es) = x :: xs := ⟨_, _, rfl⟩
    have hopen := entriesToJson_open (k + 1) (e :: es)
    rw [hx] at hes hopen h ⊢
    obtain ⟨h₁, h₂, hfuel⟩ := runFrom_entries_steps hw hopen h
    rw [textBytes_pretty_arr_cons] at h ⊢
    set L := textBytes (prettyListTo "" (k + 1) (x :: xs))
    have h₃ := runFrom_elements hes hopen (List.cons_ne_nil _ _) (b.size + 1) hfuel
      true (blanks_newline 0) (blanks_newline (2 * k)) [] h₂
    have h₄ := runFrom_closeArray blanks_nil (At.sub (ws ++ [91] ++ [10] ++ L ++
      10 :: List.replicate (2 * k) 32) ([] ++ [93]) [] (by
        simpa only [List.append_assoc, List.cons_append, List.nil_append, List.append_nil] using h)
      (j := i + ws.length + 1 + 1 + L.length + (2 * k + 1))
      (by simp only [List.length_append, List.length_cons, List.length_nil,
        List.length_replicate]; omega))
    simp only [runFrom_bind, h₁, runFrom_enter (show 2 ≤ d + 2 by omega), runFrom_read]
    refine (runFrom_closing (a := e :: es) ?_ h₄).trans ?_
    · rw [h₃, List.reverse_nil, List.nil_append]
      simp only [List.length_cons, List.length_replicate]
      rfl
    · simp only [List.length_nil, List.length_cons, List.length_append, List.length_replicate]
      congr 1
      omega

/-- The steps of reading a collection `{"name": n, "entries": [...]}` other than its entries and
its end, with `p₄ + 1` where the entries start. -/
theorem runFrom_parameters_steps {ws : List UInt8} (hw : Blanks ws) {k : Nat} {n : String}
    {es : List (String × ParameterValue)}
    (h : At b i (ws ++ textBytes (pretty k (Parameters.toJson ⟨n, es⟩)))) :
    ∃ p₂ p₃ p₄, runFrom skipBlank b i = (.ok (some 123), i + ws.length) ∧
      runFrom (nextKey true) b (i + ws.length + 1) = (.ok (some "name"), p₂) ∧
      runFrom colon b p₂ = (.ok (), p₂ + 1) ∧
      runFrom readString b (p₂ + 1) = (.ok n, p₃) ∧
      runFrom (nextKey false) b p₃ = (.ok (some "entries"), p₄) ∧
      runFrom colon b p₄ = (.ok (), p₄ + 1) ∧
      At b (p₄ + 1) ([32] ++ textBytes (pretty (k + 1) (.arr (entriesToJson es))) ++
        (10 :: List.replicate (2 * k) 32) ++ [125]) ∧
      p₄ + 1 + 1 + (textBytes (pretty (k + 1) (.arr (entriesToJson es)))).length + (2 * k + 1) + 1 =
        i + ws.length + (textBytes (pretty k (Parameters.toJson ⟨n, es⟩))).length := by
  rw [Parameters.toJson, textBytes_pretty_obj_two, pretty_str] at h ⊢
  set E := textBytes (pretty (k + 1) (.arr (entriesToJson es)))
  set qn := textBytes (quote n)
  -- the keys are kept opaque, so that no step computes their bytes
  generalize hq₁ : textBytes (quote "name") = q₁ at h ⊢
  generalize hq₂ : textBytes (quote "entries") = q₂ at h ⊢
  set sp : List UInt8 := List.replicate (2 * (k + 1)) 32
  -- the member `"name": n`, the member `"entries": [...]`, and the closing brace
  have hat : At b i (ws ++ [123] ++ (10 :: sp) ++ q₁ ++ [58] ++ [32] ++ qn ++ [44] ++ (10 :: sp) ++
      q₂ ++ [58] ++ [32] ++ E ++ (10 :: List.replicate (2 * k) 32) ++ [125]) := by
    simpa only [List.append_assoc, List.cons_append, List.nil_append] using h
  have hsp : sp.length = 2 * (k + 1) := List.length_replicate
  -- where each step starts
  set p₂ := i + ws.length + 1 + (2 * (k + 1) + 1) + q₁.length
  set p₃ := p₂ + 1 + 1 + qn.length
  set p₄ := p₃ + 1 + (2 * (k + 1) + 1) + q₂.length
  have h₁ := runFrom_skipBlank hw rfl (At.left (by simpa only [List.append_assoc] using hat))
  have h₂ : runFrom (nextKey true) b (i + ws.length + 1) = (.ok (some "name"), p₂) := by
    rw [runFrom_nextKey_first (blanks_newline (2 * (k + 1))) "name" [] (by
      rw [hq₁]
      simpa only [List.append_nil] using At.sub (ws ++ [123]) ((10 :: sp) ++ q₁) _
        (j := i + ws.length + 1) (by
          simpa only [List.append_assoc, List.cons_append, List.nil_append] using hat)
        (by simp only [List.length_append, List.length_cons, List.length_nil]; omega)), hq₁]
    simp only [List.length_cons, List.length_replicate, p₂]
  have h₃ : runFrom colon b p₂ = (.ok (), p₂ + 1) :=
    runFrom_colon blanks_nil (At.sub (ws ++ [123] ++ (10 :: sp) ++ q₁) _ _ (by
        simpa only [List.append_assoc, List.cons_append, List.nil_append] using hat)
      (by simp only [List.length_append, List.length_cons, List.length_nil, hsp, p₂]; omega))
  have h₄ : runFrom readString b (p₂ + 1) = (.ok n, p₃) :=
    runFrom_readString blanks_space n [] (by
      simpa only [List.append_nil] using At.sub (ws ++ [123] ++ (10 :: sp) ++ q₁ ++ [58])
        ([32] ++ qn) _ (j := p₂ + 1) (by
          simpa only [List.append_assoc, List.cons_append, List.nil_append] using hat)
        (by simp only [List.length_append, List.length_cons, List.length_nil, hsp, p₂]; omega))
  have h₅ : runFrom (nextKey false) b p₃ = (.ok (some "entries"), p₄) := by
    rw [runFrom_nextKey_comma blanks_nil (blanks_newline (2 * (k + 1))) "entries" [] (by
      rw [hq₂]
      simpa only [List.append_nil] using At.sub (ws ++ [123] ++ (10 :: sp) ++ q₁ ++ [58] ++
        [32] ++ qn) ([] ++ [44] ++ (10 :: sp) ++ q₂) _ (j := p₃) (by
          simpa only [List.append_assoc, List.cons_append, List.nil_append] using hat)
        (by simp only [List.length_append, List.length_cons, List.length_nil, hsp, p₃, p₂]; omega)),
      hq₂]
    simp only [List.length_cons, List.length_replicate, List.length_nil, Nat.add_zero, p₄]
  have h₆ : runFrom colon b p₄ = (.ok (), p₄ + 1) :=
    runFrom_colon blanks_nil (At.sub (ws ++ [123] ++ (10 :: sp) ++ q₁ ++ [58] ++ [32] ++ qn ++
        [44] ++ (10 :: sp) ++ q₂) _ _ (by
        simpa only [List.append_assoc, List.cons_append, List.nil_append] using hat)
      (by simp only [List.length_append, List.length_cons, List.length_nil, hsp, p₄, p₃, p₂]; omega))
  refine ⟨p₂, p₃, p₄, h₁, h₂, h₃, h₄, h₅, h₆, ?_, ?_⟩
  · exact At.sub (ws ++ [123] ++ (10 :: sp) ++ q₁ ++ [58] ++ [32] ++ qn ++ [44] ++ (10 :: sp) ++
        q₂ ++ [58]) _ [] (by
        simpa only [List.append_assoc, List.cons_append, List.nil_append, List.append_nil]
          using hat)
      (by simp only [List.length_append, List.length_cons, List.length_nil, hsp, p₄, p₃, p₂]; omega)
  · simp only [List.length_append, List.length_cons, List.length_nil, List.length_replicate, hsp,
      p₄, p₃, p₂]
    omega

theorem reads_readParameters {d k : Nat} {n : String} {es : List (String × ParameterValue)}
    (hes : Reads (readEntries (d + 1)) (textBytes (pretty (k + 1) (.arr (entriesToJson es)))) es) :
    Reads (readParameters (d + 2)) (textBytes (pretty k (Parameters.toJson ⟨n, es⟩))) ⟨n, es⟩ := by
  intro b i ws hw h
  obtain ⟨p₂, p₃, p₄, h₁, h₂, h₃, h₄, h₅, h₆, hat, hend⟩ := runFrom_parameters_steps hw h
  set E := textBytes (pretty (k + 1) (.arr (entriesToJson es)))
  have h₇ : runFrom (readEntries (d + 1)) b (p₄ + 1) = (.ok es, p₄ + 1 + 1 + E.length) :=
    hes blanks_space hat.left.left
  have hclose : At b (p₄ + 1 + 1 + E.length) ((10 :: List.replicate (2 * k) 32) ++ [125]) :=
    At.sub ([32] ++ E) _ [] (by simpa only [List.append_assoc, List.append_nil] using hat)
      (by simp only [List.length_append, List.length_singleton]; omega)
  have h₈ := runFrom_nextKey_close (blanks_newline (2 * k)) false hclose
  have h₉ := runFrom_closeObject blanks_nil (At.sub (10 :: List.replicate (2 * k) 32)
    ([] ++ [125]) [] (by simpa only [List.nil_append, List.append_nil] using hclose) rfl)
  -- three members are read: `name`, `entries`, and the brace that ends them
  obtain ⟨s, hs⟩ : ∃ s, b.size = s + 2 := ⟨b.size - 2, by
    have := hclose.le_size (by simp)
    simp only [List.length_append, List.length_cons, List.length_nil] at this
    omega⟩
  rw [readParameters]
  apply placing_ok
  simp only [runFrom_bind, h₁, runFrom_enter (show 2 ≤ d + 2 by omega)]
  refine (runFrom_closing (a := ⟨n, es⟩) ?_ h₉).trans ?_
  · simp +decide only [runFrom_bind, runFrom_read, hs, readFields, h₂, h₃, h₄, h₅, h₆, h₇, h₈,
      Option.isSome_none, Bool.false_eq_true, if_false, runFrom_pure]
  · rw [← hend]
    simp only [List.length_cons, List.length_nil, List.length_replicate]

/-! ## Every storable value -/

theorem one_le_depth_toJson (v : ParameterValue) : 1 ≤ v.toJson.depth := by
  cases v <;> simp only [toJson, Json.depth, Json.fieldsDepth] <;> omega

theorem depth_toJson_nested (n : String) (es : List (String × ParameterValue)) :
    (nested n es).toJson.depth = listDepth (entriesToJson es) + 3 := by
  simp only [toJson, Json.depth, Json.fieldsDepth]
  omega

theorem depth_toJson_parameters (p : Parameters) :
    p.toJson.depth = listDepth (entriesToJson p.entries) + 2 := by
  simp only [Parameters.toJson, Json.depth, Json.fieldsDepth]
  omega

theorem listDepth_entriesToJson_cons (key : String) (v : ParameterValue)
    (es : List (String × ParameterValue)) :
    listDepth (entriesToJson ((key, v) :: es)) =
      max (v.toJson.depth + 1) (listDepth (entriesToJson es)) := by
  simp only [entriesToJson, listDepth, Json.depth]
  omega

mutual

/-- Each reader is given a budget one more than the depth of the value it reads. -/
theorem reads_value : ∀ (v : ParameterValue) (k : Nat) {d : Nat}, v.Storable →
    v.toJson.depth < d → Reads (readValue d) (textBytes (pretty k v.toJson)) v
  | .nested n es, k, d, hv, hd => by
    rw [depth_toJson_nested] at hd
    obtain ⟨d, rfl⟩ : ∃ e, d = e + 4 := ⟨d - 4, by omega⟩
    exact reads_readValue_nested (reads_readParameters (reads_readEntries
      (reads_entries es (k + 3) hv (d := d + 1) (by omega))))
  | .bool _, k, _, hv, hd | .int _, k, _, hv, hd | .real _, k, _, hv, hd | .str _, k, _, hv, hd =>
    reads_readValue_scalar hv (fun _ _ h => by cases h)
      (Nat.succ_le_of_lt (lt_of_le_of_lt (one_le_depth_toJson _) hd)) k

theorem reads_entries : ∀ (es : List (String × ParameterValue)) (k : Nat) {d : Nat},
    EntriesStorable es → listDepth (entriesToJson es) < d →
      List.Forall₂ (fun j e => Reads (readEntry d) (textBytes (pretty k j)) e) (entriesToJson es) es
  | [], _, _, _, _ => .nil
  | (key, v) :: es, k, d, ⟨hv, hes⟩, hd => by
    rw [listDepth_entriesToJson_cons] at hd
    have h₁ := one_le_depth_toJson v
    obtain ⟨d, rfl⟩ : ∃ e, d = e + 2 := ⟨d - 2, by omega⟩
    exact .cons (reads_readEntry (reads_value v (k + 1) hv (by omega)))
      (reads_entries es k hes (by omega))

end

/-! ## Whole texts -/

theorem at_toUTF8 (s : String) : At s.toUTF8 0 (textBytes s) := by
  intro j hj
  rw [Nat.zero_add]
  show s.toUTF8.data[j]? = some s.toUTF8.data.toList[j]
  rw [← Array.getElem?_toList]
  exact List.getElem?_eq_getElem (l := s.toUTF8.data.toList) hj

theorem runFrom_document {p : Parameters} (hp : EntriesStorable p.entries)
    (hd : p.toJson.depth < 128) :
    runFrom document p.toJsonText.toUTF8 0 = (.ok p, p.toJsonText.toUTF8.size) := by
  rw [depth_toJson_parameters] at hd
  -- the top collection is read with the budget 128, its entries with 127, and so on
  have hread : runFrom (readParameters 128) p.toJsonText.toUTF8 0 =
      (.ok p, p.toJsonText.toUTF8.size) :=
    (reads_readParameters (d := 126) (k := 0) (n := p.name)
      (reads_readEntries (reads_entries p.entries 2 hp (d := 126) (by omega))) blanks_nil
      (by rw [List.nil_append]; exact at_toUTF8 p.toJsonText)).trans
      (Prod.ext rfl (by simp only [List.length_nil, Nat.add_zero, Nat.zero_add]; rfl))
  unfold document
  simp only [runFrom_bind, hread, runFrom_skipBlank_end, Option.isSome_none, Bool.false_eq_true,
    if_false, runFrom_pure]

end Reader

/-- A collection whose integers fit in 64 bits, whose reals are finite and whose text nests at
most 127 containers deep is read back from its text as it was. -/
theorem Parameters.fromJsonText_toJsonText {p : Parameters}
    (hp : ParameterValue.EntriesStorable p.entries) (hd : p.toJson.depth ≤ 127) :
    Parameters.fromJsonText p.toJsonText = .ok p := by
  have h := Reader.runFrom_document hp (by omega)
  unfold Reader.runFrom at h
  simp only [Parameters.fromJsonText, h]

end MixedFem
