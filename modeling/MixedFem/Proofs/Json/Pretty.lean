import MixedFem.Proofs.Json.Run

/-!
# The indented text of JSON values

The printers write into a buffer; what they append does not depend on it, so the text of a
container is its brackets around the texts of its items.

* `prettyTo_eq_append`, `prettyListTo_eq_append`, `prettyFieldsTo_eq_append` : the printers
  append to their buffer;
* `textBytes_pretty_arr_cons`, `textBytes_prettyListTo_cons_cons`, `textBytes_pretty_obj_one`,
  `textBytes_pretty_obj_two` : the bytes of arrays and of objects of one or two members, each
  line break followed by two blanks per level.
-/

namespace MixedFem.Json

/-! ## Appending to the buffer -/

theorem prettyTo_arr_cons (out : String) (k : Nat) (x : Json) (xs : List Json) :
    prettyTo out k (.arr (x :: xs)) =
      prettyListTo (out ++ "[\n") (k + 1) (x :: xs) ++ "\n" ++ indent k ++ "]" := rfl

theorem prettyTo_obj_cons (out : String) (k : Nat) (f : String × Json) (fs : List (String × Json)) :
    prettyTo out k (.obj (f :: fs)) =
      prettyFieldsTo (out ++ "\x7b\n") (k + 1) (f :: fs) ++ "\n" ++ indent k ++ "\x7d" := rfl

theorem prettyListTo_cons_cons (out : String) (k : Nat) (x y : Json) (xs : List Json) :
    prettyListTo out k (x :: y :: xs) =
      prettyListTo (prettyTo (out ++ indent k) k x ++ ",\n") k (y :: xs) := rfl

theorem prettyFieldsTo_cons_cons (out : String) (k : Nat) (key : String) (v : Json)
    (f : String × Json) (fs : List (String × Json)) :
    prettyFieldsTo out k ((key, v) :: f :: fs) =
      prettyFieldsTo (prettyTo (out ++ indent k ++ quote key ++ ": ") k v ++ ",\n") k (f :: fs) :=
  rfl

mutual

theorem prettyTo_eq_append :
    ∀ (out : String) (k : Nat) (j : Json), prettyTo out k j = out ++ pretty k j
  | out, k, .null | out, k, .bool _ | out, k, .int _ | out, k, .float _ | out, k, .str _
  | out, k, .arr [] | out, k, .obj [] => by
    simp only [pretty, prettyTo, String.empty_append]
  | out, k, .arr (x :: xs) => by
    rw [pretty, prettyTo_arr_cons, prettyTo_arr_cons, prettyListTo_eq_append (out ++ "[\n"),
      prettyListTo_eq_append ("" ++ "[\n")]
    simp only [String.empty_append, String.append_assoc]
  | out, k, .obj (f :: fs) => by
    rw [pretty, prettyTo_obj_cons, prettyTo_obj_cons, prettyFieldsTo_eq_append (out ++ "\x7b\n"),
      prettyFieldsTo_eq_append ("" ++ "\x7b\n")]
    simp only [String.empty_append, String.append_assoc]

theorem prettyListTo_eq_append :
    ∀ (out : String) (k : Nat) (xs : List Json), prettyListTo out k xs = out ++ prettyListTo "" k xs
  | out, k, [] => by simp only [prettyListTo, String.append_empty]
  | out, k, [x] => by
    simp only [prettyListTo]
    rw [prettyTo_eq_append (out ++ indent k), prettyTo_eq_append ("" ++ indent k)]
    simp only [String.empty_append, String.append_assoc]
  | out, k, x :: y :: xs => by
    rw [prettyListTo_cons_cons, prettyListTo_cons_cons,
      prettyListTo_eq_append (prettyTo (out ++ indent k) k x ++ ",\n"),
      prettyListTo_eq_append (prettyTo ("" ++ indent k) k x ++ ",\n"),
      prettyTo_eq_append (out ++ indent k), prettyTo_eq_append ("" ++ indent k)]
    simp only [String.empty_append, String.append_assoc]

theorem prettyFieldsTo_eq_append :
    ∀ (out : String) (k : Nat) (fs : List (String × Json)),
      prettyFieldsTo out k fs = out ++ prettyFieldsTo "" k fs
  | out, k, [] => by simp only [prettyFieldsTo, String.append_empty]
  | out, k, [(key, v)] => by
    simp only [prettyFieldsTo]
    rw [prettyTo_eq_append (out ++ indent k ++ quote key ++ ": "),
      prettyTo_eq_append ("" ++ indent k ++ quote key ++ ": ")]
    simp only [String.empty_append, String.append_assoc]
  | out, k, (key, v) :: f :: fs => by
    rw [prettyFieldsTo_cons_cons, prettyFieldsTo_cons_cons,
      prettyFieldsTo_eq_append (prettyTo (out ++ indent k ++ quote key ++ ": ") k v ++ ",\n"),
      prettyFieldsTo_eq_append (prettyTo ("" ++ indent k ++ quote key ++ ": ") k v ++ ",\n"),
      prettyTo_eq_append (out ++ indent k ++ quote key ++ ": "),
      prettyTo_eq_append ("" ++ indent k ++ quote key ++ ": ")]
    simp only [String.empty_append, String.append_assoc]

end

/-! ## Scalars -/

theorem pretty_bool (k : Nat) (x : Bool) : pretty k (.bool x) = if x then "true" else "false" :=
  String.empty_append

theorem pretty_int (k : Nat) (n : Int) : pretty k (.int n) = toString n := String.empty_append

theorem pretty_float {x : Float} (hx : x.isFinite = true) (k : Nat) :
    pretty k (.float x) = NumberStyle.data.writeFloat x := by
  rw [pretty, prettyTo, floatText, if_pos hx, String.empty_append]

theorem pretty_str (k : Nat) (s : String) : pretty k (.str s) = quote s := String.empty_append

/-! ## Bytes -/

section Bytes

open Reader

theorem textBytes_indent (k : Nat) : textBytes (indent k) = List.replicate (2 * k) 32 := by
  rw [indent, textBytes_ofList, List.flatMap_replicate, utf8EncodeChar_ascii (by decide),
    List.flatten_replicate_singleton]
  rfl

theorem textBytes_pretty_arr_cons (k : Nat) (x : Json) (xs : List Json) :
    textBytes (pretty k (.arr (x :: xs))) =
      [91, 10] ++ textBytes (prettyListTo "" (k + 1) (x :: xs)) ++
        10 :: List.replicate (2 * k) 32 ++ [93] := by
  rw [pretty, prettyTo_arr_cons, prettyListTo_eq_append]
  simp only [textBytes_append, textBytes_indent, List.append_assoc]
  rfl

theorem textBytes_prettyListTo_one (k : Nat) (x : Json) :
    textBytes (prettyListTo "" k [x]) = List.replicate (2 * k) 32 ++ textBytes (pretty k x) := by
  rw [prettyListTo, prettyTo_eq_append, textBytes_append, textBytes_append, textBytes_indent]
  rfl

theorem textBytes_prettyListTo_cons_cons (k : Nat) (x y : Json) (xs : List Json) :
    textBytes (prettyListTo "" k (x :: y :: xs)) =
      List.replicate (2 * k) 32 ++ textBytes (pretty k x) ++ [44, 10] ++
        textBytes (prettyListTo "" k (y :: xs)) := by
  rw [prettyListTo_cons_cons, prettyListTo_eq_append, prettyTo_eq_append]
  simp only [textBytes_append, textBytes_indent, String.empty_append, List.append_assoc]
  rfl

theorem textBytes_pretty_obj_one (k : Nat) (key : String) (v : Json) :
    textBytes (pretty k (.obj [(key, v)])) =
      [123, 10] ++ List.replicate (2 * (k + 1)) 32 ++ textBytes (quote key) ++ [58, 32] ++
        textBytes (pretty (k + 1) v) ++ 10 :: List.replicate (2 * k) 32 ++ [125] := by
  rw [pretty, prettyTo_obj_cons, prettyFieldsTo, prettyTo_eq_append]
  simp only [textBytes_append, textBytes_indent, String.empty_append, List.append_assoc]
  rfl

theorem textBytes_pretty_obj_two (k : Nat) (key : String) (v : Json) (key' : String) (v' : Json) :
    textBytes (pretty k (.obj [(key, v), (key', v')])) =
      [123, 10] ++ List.replicate (2 * (k + 1)) 32 ++ textBytes (quote key) ++ [58, 32] ++
        textBytes (pretty (k + 1) v) ++ [44, 10] ++ List.replicate (2 * (k + 1)) 32 ++
        textBytes (quote key') ++ [58, 32] ++ textBytes (pretty (k + 1) v') ++
        10 :: List.replicate (2 * k) 32 ++ [125] := by
  rw [pretty, prettyTo_obj_cons, prettyFieldsTo_cons_cons, prettyFieldsTo, prettyTo_eq_append,
    prettyTo_eq_append]
  simp only [textBytes_append, textBytes_indent, String.empty_append, List.append_assoc]
  rfl

theorem length_le_textBytes_prettyListTo {k : Nat} :
    ∀ {js : List Json}, (∀ j ∈ js, textBytes (pretty k j) ≠ []) →
      js.length ≤ (textBytes (prettyListTo "" k js)).length
  | [], _ => Nat.zero_le _
  | [x], h => by
    have hx := List.length_pos_iff.2 (h x (by simp))
    rw [textBytes_prettyListTo_one, List.length_append, List.length_singleton]
    omega
  | x :: y :: xs, h => by
    have hx := List.length_pos_iff.2 (h x (by simp))
    have ih : (y :: xs).length ≤ _ := length_le_textBytes_prettyListTo fun j hj => h j (by simp [hj])
    rw [textBytes_prettyListTo_cons_cons]
    simp only [List.length_append, List.length_cons] at ih ⊢
    omega

end Bytes

end MixedFem.Json
