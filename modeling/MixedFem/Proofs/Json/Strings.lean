import MixedFem.Proofs.Json.Run

/-!
# Reading string literals back

* `escapeChar_cases` : a character is written as itself, in bytes that a string body keeps
  (`Plain`), or as a backslash and an escape that `escape` reads back (`runFrom_escape_short`,
  `runFrom_escape_control`);
* `runFrom_stringBody` : by induction on the characters, a string body reads back the characters
  its escaped bytes write (`escapedBytes`);
* `runFrom_readString` : a quoted string after blanks reads back as the string.
-/

namespace MixedFem.Reader

variable {α : Type} {b : ByteArray} {i : Nat}

theorem getElem!_of_getElem? {k : Nat} {c : UInt8} (h : b[k]? = some c) : b[k]! = c := by
  have hk := lt_size_of_getElem? h
  rw [getElem!_pos b k hk]
  exact getElem_of_getElem? h hk

theorem runFrom_escape_short {x : UInt8} {s : String}
    (hx : (x, s) ∈ [((34 : UInt8), "\""), (92, "\\"), (98, "\x08"), (102, "\x0c"), (110, "\n"),
      (114, "\r"), (116, "\t")]) (h : b[i]? = some x) :
    runFrom escape b i = (.ok s, i + 1) := by
  simp only [List.mem_cons, Prod.mk.injEq, List.not_mem_nil, or_false] at hx
  rcases hx with ⟨rfl, rfl⟩ | ⟨rfl, rfl⟩ | ⟨rfl, rfl⟩ | ⟨rfl, rfl⟩ | ⟨rfl, rfl⟩ | ⟨rfl, rfl⟩ |
    ⟨rfl, rfl⟩ <;>
  · simp only [escape, escapeByte, runFrom_bind, runFrom_next_of h, runFrom_pure]

/-- The byte of the hexadecimal digit of `n`. -/
def hexByte (n : Nat) : UInt8 := (Json.hexDigit n).toNat.toUInt8

theorem hexValue_hexByte : ∀ n < 16, hexValue (hexByte n) = some n := by decide

theorem hexDigit_lt : ∀ n < 16, (Json.hexDigit n).toNat < 128 := by decide

theorem runFrom_hexEscape {p q : Nat} (hp : p < 16) (hq : q < 16)
    (h : At b i [48, 48, hexByte p, hexByte q]) :
    runFrom hexEscape b i = (.ok (p * 16 + q), i + 4) := by
  have hsize := h.le_size (by simp)
  obtain ⟨h0, h'⟩ := at_cons.1 h
  obtain ⟨h1, h'⟩ := at_cons.1 h'
  obtain ⟨h2, h'⟩ := at_cons.1 h'
  obtain ⟨h3, -⟩ := at_cons.1 h'
  simp only [List.length_cons, List.length_nil] at hsize
  have h48 : hexValue 48 = some 0 := by decide
  simp only [hexEscape, runFrom_bind, runFrom_read, runFrom_get, hsize, if_true, runFrom_set,
    getElem!_of_getElem? h0, getElem!_of_getElem? h1, getElem!_of_getElem? h2,
    getElem!_of_getElem? h3, hexValue_hexByte p hp, hexValue_hexByte q hq, h48, runFrom_pure,
    Nat.zero_mul, Nat.zero_add]

theorem runFrom_unicodeEscape {p q : Nat} (hp : p < 2) (hq : q < 16)
    (h : At b i [48, 48, hexByte p, hexByte q]) :
    runFrom unicodeEscape b i = (.ok (p * 16 + q), i + 4) := by
  have hlow : ¬ (56320 ≤ p * 16 + q) := by omega
  have hsur : p * 16 + q < 55296 := by omega
  simp only [unicodeEscape, runFrom_bind, runFrom_hexEscape (by omega) hq h, hlow, hsur,
    decide_false, decide_true, Bool.false_and, Bool.true_or, Bool.false_eq_true, if_false, if_true,
    runFrom_pure]

theorem runFrom_escape_control {c : Char} (hc : c.toNat < 32)
    (h : At b i [117, 48, 48, hexByte (c.toNat / 16), hexByte (c.toNat % 16)]) :
    runFrom escape b i = (.ok (String.singleton c), i + 5) := by
  obtain ⟨h0, h'⟩ := at_cons.1 h
  simp only [escape, escapeByte, runFrom_bind, runFrom_next_of h0, runFrom_pure,
    runFrom_unicodeEscape (by omega) (Nat.mod_lt _ (by norm_num)) h',
    Nat.div_add_mod' c.toNat 16, Char.ofNat_toNat]
  rfl

theorem textBytes_singleton (c : Char) : textBytes (String.singleton c) = String.utf8EncodeChar c := by
  simp only [textBytes, String.toUTF8_eq_toByteArray, String.toByteArray_singleton,
    List.utf8Encode, List.flatMap_singleton, List.toList_data_toByteArray]

/-- A byte that a string body keeps as it is. -/
def Plain (x : UInt8) : Prop := x ≠ 34 ∧ x ≠ 92 ∧ ¬ x < 32

theorem utf8EncodeChar_plain {c : Char} (h32 : 32 ≤ c.toNat) (h34 : c ≠ '"') (h92 : c ≠ '\\') :
    ∀ x ∈ String.utf8EncodeChar c, Plain x := by
  by_cases hc : c.toNat < 128
  · rw [utf8EncodeChar_ascii hc]
    intro x hx
    obtain rfl := List.mem_singleton.1 hx
    have h34' : c.toNat ≠ 34 := fun h => h34 (Char.toNat_inj.1 h)
    have h92' : c.toNat ≠ 92 := fun h => h92 (Char.toNat_inj.1 h)
    simp only [Plain, ne_eq, UInt8.ext_iff, UInt8.lt_iff_toNat_lt, Nat.toUInt8_eq,
      UInt8.toNat_ofNat', UInt8.reduceToNat, Nat.reducePow]
    omega
  · -- every byte of a longer encoding has its high bit set
    have hhigh : ∀ x ∈ String.utf8EncodeChar c, 128 ≤ x.toNat := by
      have hv : ¬ c.val.toNat ≤ 127 := by rw [Char.toNat_val]; omega
      unfold String.utf8EncodeChar
      simp only [hv, if_false]
      intro x hx
      split_ifs at hx <;>
      · simp only [List.mem_cons, List.not_mem_nil, or_false] at hx
        rcases hx with rfl | rfl | rfl | rfl <;>
        · simp only [UInt8.toNat_ofNat', Nat.reducePow]; omega
    intro x hx
    have := hhigh x hx
    simp only [Plain, ne_eq, UInt8.ext_iff, UInt8.lt_iff_toNat_lt, UInt8.reduceToNat]
    omega

/-- How a character is written inside a string literal: as itself, in bytes a string body keeps,
or as a backslash and an escape that reads back as the character. -/
theorem escapeChar_cases (c : Char) :
    (Json.escapeChar c = String.singleton c ∧ ∀ x ∈ String.utf8EncodeChar c, Plain x) ∨
      ∃ tail, textBytes (Json.escapeChar c) = 92 :: tail ∧ ∀ (b : ByteArray) (i : Nat) rest,
        At b i (tail ++ rest) → runFrom escape b i = (.ok (String.singleton c), i + tail.length) := by
  have short : ∀ (x : UInt8) (s : String), (x, s) ∈ [((34 : UInt8), "\""), (92, "\\"),
      (98, "\x08"), (102, "\x0c"), (110, "\n"), (114, "\r"), (116, "\t")] →
      String.singleton c = s → ∀ (b : ByteArray) (i : Nat) rest, At b i ([x] ++ rest) →
        runFrom escape b i = (.ok (String.singleton c), i + [x].length) := by
    intro x s hx hs b i rest h
    rw [hs]
    exact runFrom_escape_short hx ((at_cons.1 h).1)
  unfold Json.escapeChar
  split_ifs with h1 h2 h3 h4 h5 h6 h7 h8
  · exact Or.inr ⟨[34], rfl, short 34 "\"" (by simp) (by rw [h1]; rfl)⟩
  · exact Or.inr ⟨[92], rfl, short 92 "\\" (by simp) (by rw [h2]; rfl)⟩
  · exact Or.inr ⟨[110], rfl, short 110 "\n" (by simp) (by rw [h3]; rfl)⟩
  · exact Or.inr ⟨[114], rfl, short 114 "\r" (by simp) (by rw [h4]; rfl)⟩
  · exact Or.inr ⟨[116], rfl, short 116 "\t" (by simp) (by rw [h5]; rfl)⟩
  · exact Or.inr ⟨[98], rfl, short 98 "\x08" (by simp) (by rw [← Char.ofNat_toNat c, h6]; rfl)⟩
  · exact Or.inr ⟨[102], rfl, short 102 "\x0c" (by simp) (by rw [← Char.ofNat_toNat c, h7]; rfl)⟩
  · refine Or.inr ⟨[117, 48, 48, hexByte (c.toNat / 16), hexByte (c.toNat % 16)], ?_,
      fun b i rest h => runFrom_escape_control h8 (at_append.1 h).1⟩
    simp only [textBytes_append, textBytes_singleton,
      utf8EncodeChar_ascii (hexDigit_lt (c.toNat / 16) (by omega)),
      utf8EncodeChar_ascii (hexDigit_lt (c.toNat % 16) (Nat.mod_lt _ (by norm_num)))]
    rfl
  · refine Or.inl ⟨rfl, utf8EncodeChar_plain (by omega) h1 h2⟩

theorem utf8_flatMap (cs : List Char) :
    utf8 (cs.flatMap String.utf8EncodeChar).toByteArray = String.ofList cs := by
  have hv : (cs.flatMap String.utf8EncodeChar).toByteArray.IsValidUTF8 :=
    ByteArray.isValidUTF8_utf8Encode
  unfold utf8
  rw [String.fromUTF8?, dif_pos hv, Option.getD_some]
  apply String.toByteArray_inj.1
  rw [String.toByteArray_ofList]
  rfl

theorem runFrom_stringBody_plain {rs : List UInt8} (hr : ∀ x ∈ rs, Plain x) (fuel : Nat)
    (acc : String) (raw : List UInt8) (h : At b i rs) :
    runFrom (stringBody (fuel + rs.length) acc raw.toByteArray) b i =
      runFrom (stringBody fuel acc (raw ++ rs).toByteArray) b (i + rs.length) := by
  induction rs generalizing i raw with
  | nil => simp
  | cons x rs ih =>
    obtain ⟨hx, h'⟩ := at_cons.1 h
    obtain ⟨h34, h92, h32⟩ := hr x (by simp)
    rw [List.length_cons, ← Nat.add_assoc]
    simp only [stringBody, runFrom_bind, runFrom_peek, hx, runFrom_eat, h32, if_false]
    rw [← ByteArray.append_toByteArray_singleton, ← List.toByteArray_append,
      ih (fun y hy => hr y (by simp [hy])) (raw ++ [x]) h']
    simp only [List.append_assoc, List.singleton_append]
    congr 1
    omega

/-- The bytes of the characters `cs` as a string literal writes them. -/
def escapedBytes (cs : List Char) : List UInt8 := cs.flatMap fun c => textBytes (Json.escapeChar c)

/-- A string body reads back the characters its escaped bytes write, up to the closing quote,
after the characters `pending` whose bytes it holds. -/
theorem runFrom_stringBody (cs : List Char) (fuel : Nat) (acc : String) (pending : List Char)
    (rest : List UInt8) (hfuel : (escapedBytes cs).length < fuel)
    (h : At b i (escapedBytes cs ++ [34] ++ rest)) :
    runFrom (stringBody fuel acc (pending.flatMap String.utf8EncodeChar).toByteArray) b i =
      (.ok (acc ++ String.ofList (pending ++ cs)), i + (escapedBytes cs).length + 1) := by
  induction cs generalizing fuel acc pending i with
  | nil =>
    obtain ⟨f, rfl⟩ : ∃ f, fuel = f + 1 := ⟨fuel - 1, by simp [escapedBytes] at hfuel; omega⟩
    have hq := (at_cons.1 ((at_append.1 h).1)).1
    simp only [escapedBytes, List.flatMap_nil] at hq ⊢
    simp only [stringBody, runFrom_bind, runFrom_peek, hq, runFrom_eat, runFrom_pure, utf8_flatMap,
      List.append_nil, List.length_nil, Nat.add_zero]
  | cons c cs ih =>
    have hsplit : escapedBytes (c :: cs) = textBytes (Json.escapeChar c) ++ escapedBytes cs := by
      simp [escapedBytes]
    rw [hsplit] at hfuel h ⊢
    rcases escapeChar_cases c with ⟨hc, hplain⟩ | ⟨tail, htail, hesc⟩
    · -- the bytes of `c` are kept as they are
      rw [hc, textBytes_singleton] at hfuel h ⊢
      rw [List.length_append] at hfuel
      obtain ⟨f, rfl⟩ : ∃ f, fuel = f + (String.utf8EncodeChar c).length :=
        ⟨fuel - (String.utf8EncodeChar c).length, by omega⟩
      rw [List.append_assoc, List.append_assoc] at h
      obtain ⟨h₁, h₂⟩ := at_append.1 h
      rw [← List.append_assoc] at h₂
      have hpend : pending.flatMap String.utf8EncodeChar ++ String.utf8EncodeChar c =
          (pending ++ [c]).flatMap String.utf8EncodeChar := by simp
      rw [runFrom_stringBody_plain hplain f acc _ h₁, hpend, ih f acc (pending ++ [c]) (by omega) h₂]
      simp only [List.append_assoc, List.singleton_append, List.length_append]
      congr 2
      omega
    · -- a backslash, and the escape that reads back as `c`
      rw [htail] at hfuel h
      simp only [List.length_append, List.length_cons] at hfuel
      obtain ⟨f, rfl⟩ : ∃ f, fuel = f + 1 := ⟨fuel - 1, by omega⟩
      rw [List.cons_append, List.cons_append, List.cons_append] at h
      obtain ⟨h92, h'⟩ := at_cons.1 h
      rw [List.append_assoc, List.append_assoc] at h'
      have h₂ := (at_append.1 h').2
      rw [← List.append_assoc] at h₂
      have hempty : ByteArray.empty = (([] : List Char).flatMap String.utf8EncodeChar).toByteArray :=
        rfl
      simp only [stringBody, runFrom_bind, runFrom_peek, h92, runFrom_eat,
        hesc b (i + 1) _ h', utf8_flatMap]
      rw [hempty, ih f _ [] (by omega) h₂, htail]
      simp only [List.nil_append, String.append_assoc, ← String.ofList_append,
        String.singleton_eq_ofList, List.append_assoc, List.singleton_append, List.length_append,
        List.length_cons]
      congr 1
      omega

theorem textBytes_join (l : List String) : textBytes (String.join l) = l.flatMap textBytes := by
  induction l with
  | nil => rfl
  | cons s l ih => rw [String.join_cons, textBytes_append, ih, List.flatMap_cons]

theorem textBytes_quote (s : String) :
    textBytes (Json.quote s) = 34 :: escapedBytes s.toList ++ [34] := by
  rw [Json.quote, textBytes_append, textBytes_append, textBytes_join, List.flatMap_map]
  rfl

theorem placing_ok {x : Reader α} {a : α} {j : Nat} (h : runFrom x b i = (.ok a, j)) :
    runFrom (placing x) b i = (.ok a, j) := by
  simp only [placing, runFrom_tryCatch, h]

theorem runFrom_string (s : String) (rest : List UInt8)
    (h : At b i (escapedBytes s.toList ++ [34] ++ rest)) :
    runFrom string b i = (.ok s, i + (escapedBytes s.toList).length + 1) := by
  have hsize := (at_append.1 h).1.le_size (by simp)
  have hempty : ByteArray.empty = (([] : List Char).flatMap String.utf8EncodeChar).toByteArray :=
    rfl
  simp only [List.length_append, List.length_singleton] at hsize
  simp only [string, runFrom_bind, runFrom_read]
  rw [hempty, runFrom_stringBody s.toList _ "" [] rest (by omega) h]
  simp only [List.nil_append, String.ofList_toList, String.empty_append]

theorem runFrom_readString {ws : List UInt8} (hw : Blanks ws) (s : String) (rest : List UInt8)
    (h : At b i (ws ++ textBytes (Json.quote s) ++ rest)) :
    runFrom readString b i = (.ok s, i + ws.length + (textBytes (Json.quote s)).length) := by
  rw [textBytes_quote] at h ⊢
  have h' : At b i ((ws ++ [34]) ++ (escapedBytes s.toList ++ [34] ++ rest)) := by
    simpa only [List.append_assoc, List.cons_append, List.nil_append] using h
  obtain ⟨h₁, h₂⟩ := at_append.1 h'
  have h₂' : At b (i + ws.length + 1) (escapedBytes s.toList ++ [34] ++ rest) :=
    h₂.of_eq (by simp; omega)
  apply placing_ok
  simp only [runFrom_bind, runFrom_skipBlank hw rfl h₁, runFrom_eat, runFrom_string s rest h₂']
  simp only [List.length_cons, List.length_append, List.length_nil]
  congr 1
  omega

end MixedFem.Reader
