import MixedFem.Proofs.Json.Pretty
import MixedFem.Proofs.Json.Strings

/-!
# Reading arrays and objects

The readers of containers skip blanks before each token, so what they read is described up to
the blanks in front of it.

* `Json.depth` : how deep containers nest, which the readers bound;
* `Reads x xs a` : `x` reads the bytes `xs`, after any blanks, as `a` and stops right after them;
* `runFrom_closing` : a body and its closing step that both succeed;
* `runFrom_nextKey_first`, `runFrom_nextKey_comma`, `runFrom_nextKey_close` : the keys of an
  object;
* `Lead`, `runFrom_elements` : the elements of an indented array, read one by one up to the
  closing bracket.
-/

namespace MixedFem

namespace Json

mutual

/-- How deep containers nest in a value: an array or an object is one deeper than its deepest
item, a scalar is not a container. -/
def depth : Json → Nat
  | .arr xs => listDepth xs + 1
  | .obj fs => fieldsDepth fs + 1
  | _ => 0

/-- The greatest depth of the items. -/
def listDepth : List Json → Nat
  | [] => 0
  | x :: xs => max x.depth (listDepth xs)

/-- The greatest depth of the members' values. -/
def fieldsDepth : List (String × Json) → Nat
  | [] => 0
  | (_, v) :: fs => max v.depth (fieldsDepth fs)

end

end Json

namespace Reader

variable {α : Type} {b : ByteArray} {i : Nat}

/-- `x` reads the bytes `xs` as `a` after any blanks, and stops right after them. -/
def Reads (x : Reader α) (xs : List UInt8) (a : α) : Prop :=
  ∀ {b : ByteArray} {i : Nat} {ws : List UInt8}, Blanks ws → At b i (ws ++ xs) →
    runFrom x b i = (.ok a, i + ws.length + xs.length)

/-! ## Blanks and bytes -/

theorem blanks_nil : Blanks [] := fun _ h => absurd h List.not_mem_nil

theorem Blanks.append {ws ws' : List UInt8} (hw : Blanks ws) (hw' : Blanks ws') :
    Blanks (ws ++ ws') := by
  intro c hc
  rcases List.mem_append.1 hc with hc | hc
  · exact hw c hc
  · exact hw' c hc

theorem blanks_replicate (n : Nat) : Blanks (List.replicate n 32) := by
  intro c hc
  rw [List.eq_of_mem_replicate hc]
  rfl

theorem blanks_newline (n : Nat) : Blanks (10 :: List.replicate n 32) := by
  intro c hc
  rcases List.mem_cons.1 hc with rfl | hc
  · rfl
  · exact blanks_replicate n c hc

theorem At.left {xs ys : List UInt8} (h : At b i (xs ++ ys)) : At b i xs := (at_append.1 h).1

theorem At.right {xs ys : List UInt8} (h : At b i (xs ++ ys)) : At b (i + xs.length) ys :=
  (at_append.1 h).2

theorem At.sub (xs ys zs : List UInt8) (h : At b i (xs ++ ys ++ zs)) {j : Nat}
    (hj : i + xs.length = j) : At b j ys :=
  (at_append.1 h.left).2.of_eq hj

/-! ## Steps -/

theorem runFrom_closing {body : Reader α} {close : Reader Unit} {a : α} {j k : Nat}
    (hb : runFrom body b i = (.ok a, j)) (hc : runFrom close b j = (.ok (), k)) :
    runFrom (closing body close) b i = (.ok a, k) :=
  ((Yields.of_ok hb).closing (Yields.of_ok hc)).ok ⟨trivial, trivial⟩

theorem runFrom_nextKey_first {ws : List UInt8} (hw : Blanks ws) (s : String) (rest : List UInt8)
    (h : At b i (ws ++ textBytes (Json.quote s) ++ rest)) :
    runFrom (nextKey true) b i =
      (.ok (some s), i + ws.length + (textBytes (Json.quote s)).length) := by
  rw [textBytes_quote] at h ⊢
  have h' : At b i ((ws ++ [34]) ++ (escapedBytes s.toList ++ [34] ++ rest)) := by
    simpa only [List.append_assoc, List.cons_append, List.nil_append] using h
  have hs := runFrom_string s rest
    (h'.right.of_eq (j := i + ws.length + 1) (by simp only [List.length_append]; rfl))
  simp only [nextKey, runFrom_bind, runFrom_skipBlank hw rfl h'.left]
  -- the opening quote falls to the pattern of any byte, past the literal ones
  show runFrom (do eat; let v ← string; pure (some v)) b (i + ws.length) = _
  simp only [runFrom_bind, runFrom_eat, hs, runFrom_pure, List.length_cons, List.length_append,
    List.length_nil]
  congr 1
  omega

theorem runFrom_nextKey_comma {ws ws' : List UInt8} (hw : Blanks ws) (hw' : Blanks ws') (s : String)
    (rest : List UInt8) (h : At b i (ws ++ [44] ++ ws' ++ textBytes (Json.quote s) ++ rest)) :
    runFrom (nextKey false) b i =
      (.ok (some s), i + ws.length + 1 + ws'.length + (textBytes (Json.quote s)).length) := by
  rw [textBytes_quote] at h ⊢
  have h' : At b i ((ws ++ [44]) ++ (ws' ++ [34]) ++ (escapedBytes s.toList ++ [34] ++ rest)) := by
    simpa only [List.append_assoc, List.cons_append, List.nil_append] using h
  have hs := runFrom_string s rest (h'.right.of_eq (j := i + ws.length + 1 + ws'.length + 1)
    (by simp only [List.length_append, List.length_singleton]; omega))
  have hq : At b (i + ws.length + 1) (ws' ++ [34]) :=
    h'.left.right.of_eq (by simp only [List.length_append, List.length_singleton]; omega)
  simp only [nextKey, runFrom_bind, runFrom_skipBlank hw rfl h'.left.left]
  simp only [Bool.false_eq_true, if_false, runFrom_bind, runFrom_eat, runFrom_skipBlank hw' rfl hq,
    runFrom_pure, hs, List.length_cons, List.length_append, List.length_nil]
  congr 1
  omega

theorem runFrom_nextKey_close {ws : List UInt8} (hw : Blanks ws) (first : Bool)
    (h : At b i (ws ++ [125])) : runFrom (nextKey first) b i = (.ok none, i + ws.length) := by
  simp only [nextKey, runFrom_bind, runFrom_skipBlank hw rfl h]
  rfl

/-! ## Elements -/

/-- The bytes in front of an element: blanks before the first, a comma among blanks before the
others. -/
def Lead : Bool → List UInt8 → Prop
  | true, ls => Blanks ls
  | false, ls => ∃ ws ws', ls = ws ++ 44 :: ws' ∧ Blanks ws ∧ Blanks ws'

theorem runFrom_nextElement_lead {first : Bool} {ls : List UInt8} (hl : Lead first ls)
    {ws : List UInt8} (hw : Blanks ws) {c : UInt8} (hc : isBlank c = false) (h93 : c ≠ 93)
    (h44 : c ≠ 44) (h : At b i (ls ++ ws ++ [c])) :
    runFrom (nextElement first) b i = (.ok true, i + ls.length + ws.length) := by
  cases first with
  | true =>
    rw [runFrom_nextElement_first (hl.append hw) hc h93 h44 (by simpa only [List.append_assoc] using h),
      List.length_append, Nat.add_assoc]
  | false =>
    obtain ⟨ws₁, ws₂, rfl, hw₁, hw₂⟩ := hl
    rw [runFrom_nextElement_comma hw₁ (hw₂.append hw) hc h93
      (by simpa only [List.append_assoc, List.cons_append, List.nil_append] using h)]
    simp only [List.length_append, List.length_cons]
    congr 1
    omega

/-- The places in an indented array of an element that opens with a bracket: the bracket after
its indent, the element, and what follows it. -/
theorem at_element {ls rest : List UInt8} {k : Nat} {j : Json} {ys : List UInt8}
    (hys : textBytes (Json.pretty k j) = 91 :: ys)
    (h : At b i (ls ++ List.replicate (2 * k) 32 ++ textBytes (Json.pretty k j) ++ rest)) :
    At b i (ls ++ List.replicate (2 * k) 32 ++ [91]) ∧
      At b (i + ls.length + 2 * k) ([] ++ textBytes (Json.pretty k j)) ∧
      At b (i + ls.length + 2 * k + (textBytes (Json.pretty k j)).length) rest := by
  refine ⟨?_, ?_, At.sub (ls ++ List.replicate (2 * k) 32 ++ textBytes (Json.pretty k j)) _ []
    (by simpa only [List.append_nil] using h)
    (by simp only [List.length_append, List.length_replicate]; omega)⟩
  · rw [hys] at h
    exact At.left (by simpa only [List.append_assoc, List.cons_append, List.nil_append] using h)
  · rw [List.nil_append]
    exact At.sub (ls ++ List.replicate (2 * k) 32) _ rest h
      (by simp only [List.length_append, List.length_replicate]; omega)

theorem runFrom_elements {elem : Reader α} {k : Nat} {js : List Json} {as : List α}
    (h : List.Forall₂ (fun j a => Reads elem (textBytes (Json.pretty k j)) a) js as)
    (hopen : ∀ j ∈ js, ∃ ys, textBytes (Json.pretty k j) = 91 :: ys) (hne : js ≠ []) :
    ∀ (fuel : Nat) (_ : js.length < fuel) (first : Bool) {ls : List UInt8} (_ : Lead first ls)
      {ws : List UInt8} (_ : Blanks ws) (acc : List α) {i : Nat},
      At b i (ls ++ textBytes (Json.prettyListTo "" k js) ++ ws ++ [93]) →
      runFrom (elements elem fuel first acc) b i =
        (.ok (acc.reverse ++ as),
          i + ls.length + (textBytes (Json.prettyListTo "" k js)).length + ws.length) := by
  induction h with
  | nil => exact absurd rfl hne
  | @cons j a js as hj hrest ih =>
    intro fuel hfuel first ls hl ws hw acc i hat
    obtain ⟨ys, hys⟩ := hopen j (List.mem_cons_self ..)
    obtain ⟨fuel, rfl⟩ : ∃ f, fuel = f + 1 := ⟨fuel - 1, by simp at hfuel; omega⟩
    -- the element after its lead, then the rest of the array behind it
    cases hrest with
    | nil =>
      rw [Json.textBytes_prettyListTo_one] at hat ⊢
      have hat' : At b i (ls ++ List.replicate (2 * k) 32 ++ textBytes (Json.pretty k j) ++
          (ws ++ [93])) := by
        simpa only [List.append_assoc] using hat
      obtain ⟨h₁, h₂, h₃⟩ := at_element hys hat'
      obtain ⟨fuel, rfl⟩ : ∃ f, fuel = f + 1 := ⟨fuel - 1, by simp at hfuel; omega⟩
      simp only [elements, runFrom_bind,
        runFrom_nextElement_lead hl (blanks_replicate _) rfl (by decide) (by decide) h₁,
        List.length_replicate, if_true, hj blanks_nil h₂, List.length_nil, Nat.add_zero,
        runFrom_nextElement_close hw false h₃, Bool.false_eq_true, if_false, runFrom_pure,
        List.reverse_cons, List.length_append]
      congr 2
      omega
    | @cons j' a' js' as' hj' hrest' =>
      rw [Json.textBytes_prettyListTo_cons_cons] at hat ⊢
      have hat' : At b i (ls ++ List.replicate (2 * k) 32 ++ textBytes (Json.pretty k j) ++
          ([44, 10] ++ textBytes (Json.prettyListTo "" k (j' :: js')) ++ ws ++ [93])) := by
        simpa only [List.append_assoc] using hat
      obtain ⟨h₁, h₂, h₃⟩ := at_element hys hat'
      have hrest := ih (fun j hj => hopen j (List.mem_cons_of_mem _ hj)) (List.cons_ne_nil _ _)
        fuel (by simp at hfuel ⊢; omega) false ⟨[], [10], rfl, blanks_nil, blanks_newline 0⟩ hw
        (a :: acc) h₃
      simp only [elements, runFrom_bind,
        runFrom_nextElement_lead hl (blanks_replicate _) rfl (by decide) (by decide) h₁,
        List.length_replicate, if_true, hj blanks_nil h₂, List.length_nil, Nat.add_zero, hrest,
        List.reverse_cons, List.append_assoc, List.singleton_append, List.length_append,
        List.length_cons]
      congr 2
      omega

end Reader

end MixedFem
