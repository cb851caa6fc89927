import MixedFem.Proofs.Json.Strings
import MixedFem.Proofs.Float.Reading

/-!
# Reading numbers

* `digitsFold_eq`, `digitsValue_append`, `digitsValue_lt` : the value of a run of digit bytes;
* `exponentFrom_eq` : exponent digits that stay small are read to their value;
* `dropZeros_value`, `keepDigits_of_lt` : neither step changes the value of a significand with
  fewer than `significantDigits` digits;
* `EndsNumber` : a byte that cannot continue a number;
* `runFrom_number_*` : the integers, and the decimals with a fraction or an exponent, that the
  number reader reads back from their digits.
-/

namespace MixedFem.Reader

variable {b : ByteArray} {i : Nat}

/-! ## Runs of digits -/

theorem digitsFold_eq (acc : Nat) (ds : List UInt8) :
    digitsFold acc ds = acc * 10 ^ ds.length + digitsValue ds := by
  induction ds generalizing acc with
  | nil => simp [digitsFold, digitsValue]
  | cons d ds ih =>
    simp only [digitsValue, digitsFold, List.foldl_cons] at ih ⊢
    rw [ih, ih (10 * 0 + (d.toNat - 48)), List.length_cons, Nat.pow_succ]
    ring

theorem digitsFold_append (acc : Nat) (xs ys : List UInt8) :
    digitsFold acc (xs ++ ys) = digitsFold (digitsFold acc xs) ys :=
  List.foldl_append

theorem digitsValue_append (xs ys : List UInt8) :
    digitsValue (xs ++ ys) = digitsValue xs * 10 ^ ys.length + digitsValue ys := by
  rw [digitsValue, digitsFold_append, digitsFold_eq]
  rfl

theorem digitsValue_cons (d : UInt8) (ds : List UInt8) :
    digitsValue (d :: ds) = (d.toNat - 48) * 10 ^ ds.length + digitsValue ds := by
  rw [show d :: ds = [d] ++ ds from rfl, digitsValue_append]
  simp [digitsValue, digitsFold]

theorem digitsValue_lt {ds : List UInt8} (hd : ∀ d ∈ ds, isDigit d = true) :
    digitsValue ds < 10 ^ ds.length := by
  induction ds with
  | nil => simp [digitsValue, digitsFold]
  | cons d ds ih =>
    have hd' := hd d (by simp)
    simp only [isDigit, Bool.and_eq_true, decide_eq_true_eq, UInt8.le_iff_toNat_le,
      UInt8.reduceToNat] at hd'
    have hds := ih fun x hx => hd x (by simp [hx])
    rw [digitsValue_cons, List.length_cons, Nat.pow_succ]
    have : (d.toNat - 48) * 10 ^ ds.length ≤ 9 * 10 ^ ds.length :=
      Nat.mul_le_mul_right _ (by omega)
    omega

theorem digitsValue_cons_eq_fold (d : UInt8) (ds : List UInt8) :
    digitsValue (d :: ds) = digitsFold (d.toNat - 48) ds := by
  simp [digitsValue, digitsFold]

theorem digitsValue_replicate_zero (n : Nat) : digitsValue (List.replicate n 48) = 0 := by
  induction n with
  | zero => rfl
  | succ n ih => rw [List.replicate_succ, digitsValue_cons, ih]; simp

theorem exponentFrom_eq {ds : List UInt8} (hd : ∀ d ∈ ds, isDigit d = true) {c : UInt8}
    (hc : isDigit c = false) (h : At b i (ds ++ [c])) (acc : Nat)
    (hsmall : digitsFold acc ds < 214748364) :
    exponentFrom b i acc = (i + ds.length, some (digitsFold acc ds)) := by
  induction ds generalizing i acc with
  | nil =>
    have hi := (at_cons.1 h).1
    rw [exponentFrom, dif_pos (lt_size_of_getElem? hi)]
    simp only [getElem_of_getElem? hi, hc, Bool.false_eq_true, if_false, List.length_nil,
      Nat.add_zero, digitsFold, List.foldl_nil]
  | cons d ds ih =>
    obtain ⟨hi, h'⟩ := at_cons.1 h
    -- every prefix of the digits is worth at most a tenth of the whole
    have hacc : acc < 214748364 := by
      rw [digitsFold_eq, List.length_cons, Nat.pow_succ] at hsmall
      have : acc ≤ acc * (10 ^ ds.length * 10) := Nat.le_mul_of_pos_right _ (by positivity)
      omega
    rw [exponentFrom, dif_pos (lt_size_of_getElem? hi)]
    simp only [getElem_of_getElem? hi, hd d (by simp), if_true,
      show ¬ (214748364 < acc ∨ (acc = 214748364 ∧ 7 < d.toNat - 48)) by omega, if_false]
    rw [ih (fun c hc => hd c (by simp [hc])) h' _ hsmall, List.length_cons]
    simp only [digitsFold, List.foldl_cons, Prod.mk.injEq, and_true]
    omega

theorem At.split {xs ys : List UInt8} {c : UInt8} (h : At b i (xs ++ c :: ys)) :
    At b i (xs ++ [c]) ∧ b[i + xs.length]? = some c ∧ At b (i + xs.length + 1) ys := by
  rw [show xs ++ c :: ys = (xs ++ [c]) ++ ys by simp] at h
  obtain ⟨h₁, h₂⟩ := at_append.1 h
  refine ⟨h₁, ?_, (by simpa using h₂ : At b (i + (xs.length + 1)) ys).of_eq (by omega)⟩
  simpa using (at_append.1 h₁).2 0 (by simp)

end MixedFem.Reader

namespace MixedFem.Decimal

/-! ## The significand kept -/

theorem dropZeros_value (k m : Nat) (e : Int) :
    ((dropZeros k m e).1 : ℚ) * 10 ^ (dropZeros k m e).2 = m * 10 ^ e ∧ (dropZeros k m e).1 ≤ m := by
  induction k generalizing m e with
  | zero => exact ⟨rfl, le_rfl⟩
  | succ k ih =>
    rw [dropZeros]
    split_ifs with h
    · obtain ⟨hv, hle⟩ := ih (m / 10) (e + 1)
      refine ⟨?_, hle.trans (Nat.div_le_self m 10)⟩
      have hdiv : ((m / 10 : ℕ) : ℚ) * 10 = m := by
        exact_mod_cast Nat.div_mul_cancel (Nat.dvd_of_mod_eq_zero h.2)
      rw [hv, zpow_add_one₀ (by norm_num), ← hdiv]
      ring
    · exact ⟨rfl, le_rfl⟩

theorem dropZeros_zero (m : Nat) (e : Int) : dropZeros 0 m e = (m, e) := rfl

theorem keepDigits_of_lt {limit m : Nat} (hl : 0 < limit) (hm : m < 10 ^ limit) (e : Int) :
    keepDigits limit m e = (m, e) := by
  have hc : digitCount m ≤ limit := (Nat.length_toDigits_le_iff (by norm_num) hl).2 hm
  simp only [keepDigits, hc, if_true]

end MixedFem.Decimal

namespace MixedFem.Reader

variable {b : ByteArray} {i : Nat}

/-! ## Numbers -/

/-- A byte that cannot continue a number: no digit, point or exponent mark. -/
def EndsNumber (c : UInt8) : Prop := isDigit c = false ∧ c ≠ 46 ∧ c ≠ 101 ∧ c ≠ 69

/-- The integer digits of a number: a lone zero, or digits led by a nonzero one. -/
def Leading (ds : List UInt8) : Prop :=
  ds = [48] ∨ ∃ d rest, ds = d :: rest ∧ isDigit d = true ∧ d ≠ 48 ∧ ∀ x ∈ rest, isDigit x = true

/-- The fraction of a number, if it has digits. -/
def pointBytes (fs : List UInt8) : List UInt8 := if fs = [] then [] else 46 :: fs

/-- The exponent of a number, with its sign. -/
def exponentBytes (neg : Bool) (xs : List UInt8) : List UInt8 := 101 :: (if neg then 45 else 43) :: xs

theorem Leading.cons {ds : List UInt8} (h : Leading ds) : ∃ x xs, ds = x :: xs ∧ isDigit x = true := by
  rcases h with rfl | ⟨d, rest, rfl, hd, -, -⟩
  · exact ⟨48, [], rfl, rfl⟩
  · exact ⟨d, rest, rfl, hd⟩

theorem EndsNumber.beq {c : UInt8} (hc : EndsNumber c) :
    (c == 46) = false ∧ (c == 101) = false ∧ (c == 69) = false := by
  obtain ⟨-, h46, h101, h69⟩ := hc
  simp [h46, h101, h69]

theorem isBlank_of_isDigit {x : UInt8} (hx : isDigit x = true) : isBlank x = false := by
  simp only [isDigit, Bool.and_eq_true, decide_eq_true_eq, UInt8.le_iff_toNat_le,
    UInt8.reduceToNat] at hx
  have hne : x ≠ 32 ∧ x ≠ 10 ∧ x ≠ 9 ∧ x ≠ 13 := by
    refine ⟨?_, ?_, ?_, ?_⟩ <;> rintro rfl <;> simp at hx
  simp [isBlank, hne.1, hne.2.1, hne.2.2.1, hne.2.2.2]

theorem runFrom_number_point (pos : Bool) (is fs : List UInt8) {c : UInt8} (his : Leading is)
    (hfs : ∀ d ∈ fs, isDigit d = true) (hfs' : fs ≠ []) (hc : EndsNumber c)
    (hsig : digitsValue (is ++ fs) < 10 ^ significantDigits) (h : At b i (is ++ 46 :: fs ++ [c])) :
    ∃ (m : Nat) (e : Int), (m : ℚ) * 10 ^ e = digitsValue (is ++ fs) * 10 ^ (-(fs.length : ℤ)) ∧
      ((Decimal.toFloat (!pos) m e).isFinite = true →
        runFrom (number pos) b i =
          (.ok (.float (Decimal.toFloat (!pos) m e)), i + (is.length + fs.length + 1))) := by
  have hfn : fs.length ≠ 0 := by simpa using hfs'
  obtain ⟨h46, h101, h69⟩ := hc.beq
  -- the digits of the fraction, wherever the integer digits end
  have hfrac {j : Nat} (hj : At b j (46 :: fs ++ [c])) :
      b[j]? = some 46 ∧ runFrom digits b (j + 1) = (.ok (digitsValue fs, fs.length), j + 1 + fs.length) ∧
        b[j + 1 + fs.length]? = some c := by
    obtain ⟨h₀, h₁⟩ := at_cons.1 hj
    exact ⟨h₀, runFrom_digits hfs hc.1 h₁, (by simpa using h₁.split.2.1)⟩
  obtain ⟨hv, hle⟩ := Decimal.dropZeros_value fs.length (digitsValue (is ++ fs)) (0 - fs.length)
  rcases his with rfl | ⟨d, rest, rfl, hd, hd48, hrest⟩
  · -- a lone zero before the point
    simp only [List.cons_append, List.nil_append] at h
    obtain ⟨h0, h1⟩ := at_cons.1 h
    obtain ⟨hpt, hdig, hend⟩ := hfrac h1
    have hM : 0 * 10 ^ fs.length + digitsValue fs = digitsValue ([48] ++ fs) := by
      rw [digitsValue_append]; rfl
    unfold number
    simp only [runFrom_bind, runFrom_next_of h0, runFrom_pure, runFrom_peek, hpt, hdig, hend,
      beq_self_eq_true, if_true, if_false, Bool.false_eq_true, runFrom_eat, hfn,
      Option.some_beq_some, h101, h69, Bool.or_false, Option.isNone_some, Bool.false_and,
      Option.getD_some, Option.getD_none, Nat.pow_eq, show isDigit 46 = false from rfl]
    rw [hM, Decimal.keepDigits_of_lt (by decide) (hle.trans_lt hsig)]
    refine ⟨_, _, hv.trans (by rw [Int.zero_sub]), fun hfin => ?_⟩
    simp only [hfin, if_true, runFrom_pure, List.length_singleton]
    congr 1
    omega
  · -- digits led by a nonzero one
    simp only [List.cons_append, List.append_assoc] at h
    obtain ⟨h0, h1⟩ := at_cons.1 h
    have hint := runFrom_digits hrest rfl h1.split.1
    obtain ⟨hpt, hdig, hend⟩ := hfrac (at_append.1 h1).2
    have hM : (digitsValue rest + (d.toNat - 48) * 10 ^ rest.length) * 10 ^ fs.length +
        digitsValue fs = digitsValue (d :: rest ++ fs) := by
      rw [List.cons_append, digitsValue_cons, digitsValue_append, List.length_append]
      ring
    have hd48' : (d == 48) = false := by simpa using hd48
    unfold number
    simp only [runFrom_bind, runFrom_next_of h0, runFrom_pure, runFrom_peek, hint, hpt, hdig, hend,
      hd48', hd, beq_self_eq_true, if_true, if_false, Bool.false_eq_true, runFrom_eat, hfn,
      Option.some_beq_some, h101, h69, Bool.or_false, Option.isNone_some, Bool.false_and,
      Option.getD_some, Option.getD_none, Nat.pow_eq]
    rw [hM, Decimal.keepDigits_of_lt (by decide) (hle.trans_lt hsig)]
    refine ⟨_, _, hv.trans (by rw [Int.zero_sub]), fun hfin => ?_⟩
    simp only [hfin, if_true, runFrom_pure, List.length_cons]
    congr 1
    omega

theorem runFrom_number_exponent (pos neg : Bool) {d : UInt8} (rest fs : List UInt8) {xs : List UInt8}
    {c : UInt8}
    (hd : isDigit d = true) (hd48 : d ≠ 48) (hrest : ∀ x ∈ rest, isDigit x = true)
    (hfs : ∀ x ∈ fs, isDigit x = true) (hxs : ∀ x ∈ xs, isDigit x = true) (hxs' : xs ≠ [])
    (hsmall : digitsValue xs < 214748364) (hc : EndsNumber c)
    (hsig : digitsValue (d :: rest ++ fs) < 10 ^ significantDigits)
    (h : At b i (d :: rest ++ pointBytes fs ++ exponentBytes neg xs ++ [c])) :
    ∃ (m : Nat) (e : Int), (m : ℚ) * 10 ^ e = digitsValue (d :: rest ++ fs) *
        10 ^ ((if neg then -(digitsValue xs : ℤ) else digitsValue xs) - fs.length) ∧
      ((Decimal.toFloat (!pos) m e).isFinite = true →
        runFrom (number pos) b i = (.ok (.float (Decimal.toFloat (!pos) m e)),
          i + (rest.length + 1 + (pointBytes fs).length + xs.length + 2))) := by
  obtain ⟨x, xs, rfl⟩ := List.exists_cons_of_ne_nil hxs'
  obtain ⟨h46, h101, h69⟩ := hc.beq
  -- the exponent, wherever the fraction ends
  have hexp {k : Nat} (hk : At b k (exponentBytes neg (x :: xs) ++ [c])) :
      b[k]? = some 101 ∧ b[k + 1]? = some (if neg then 45 else 43) ∧ b[k + 1 + 1]? = some x ∧
        exponentFrom b (k + 1 + 1 + 1) (x.toNat - 48) =
          (k + 1 + 1 + 1 + xs.length, some (digitsValue (x :: xs))) := by
    simp only [exponentBytes, List.cons_append] at hk
    obtain ⟨h₀, hk⟩ := at_cons.1 hk
    obtain ⟨h₁, hk⟩ := at_cons.1 hk
    obtain ⟨h₂, hk⟩ := at_cons.1 hk
    refine ⟨h₀, h₁, h₂, ?_⟩
    rw [digitsValue_cons_eq_fold] at hsmall ⊢
    exact exponentFrom_eq (fun y hy => hxs y (by simp [hy])) hc.1 hk _ hsmall
  have hx : isDigit x = true := hxs x (by simp)
  have hd48' : (d == 48) = false := by simpa using hd48
  simp only [List.cons_append, List.append_assoc] at h
  obtain ⟨h0, h1⟩ := at_cons.1 h
  rcases eq_or_ne fs [] with rfl | hfs'
  · -- no fraction
    simp only [pointBytes, if_true, List.nil_append, List.append_nil] at h1 hsig ⊢
    have hint := runFrom_digits hrest rfl h1.split.1
    obtain ⟨he, hs, hx0, hfrom⟩ := hexp (at_append.1 h1).2
    have hM : (digitsValue rest + (d.toNat - 48) * 10 ^ rest.length) * 10 ^ 0 + 0 =
        digitsValue (d :: rest) := by
      rw [digitsValue_cons]; ring
    unfold number
    cases neg
    all_goals
      simp only [runFrom_bind, runFrom_next_of h0, runFrom_pure, runFrom_peek, hint, he, hs,
        hfrom, hd48', hd, hx, beq_self_eq_true, if_true, if_false, Bool.false_eq_true,
        Bool.true_or, Bool.not_true, runFrom_eat, runFrom_next_of hx0, runFrom_read, runFrom_get,
        runFrom_set, Option.isNone_some, Option.isNone_none, Bool.false_and, Bool.and_false,
        Option.getD_some, Option.getD_none, Nat.pow_eq, Decimal.dropZeros_zero, List.length_nil,
        Nat.cast_zero, sub_zero, hM, Decimal.keepDigits_of_lt (by decide) hsig,
        Option.some_beq_some, show ((101 : UInt8) == 46) = false from rfl]
      refine ⟨_, _, rfl, fun hfin => ?_⟩
      simp only [hfin, if_true, runFrom_pure, List.length_cons]
      congr 1
      omega
  · -- a fraction before the exponent
    have hpb : pointBytes fs = 46 :: fs := if_neg hfs'
    have hfn : fs.length ≠ 0 := by simpa using hfs'
    rw [hpb] at h1 ⊢
    have hint := runFrom_digits hrest rfl h1.split.1
    obtain ⟨hpt, h2⟩ := at_cons.1 (at_append.1 h1).2
    have hfrac := runFrom_digits hfs rfl
      (h2 : At b _ (fs ++ 101 :: ((if neg then 45 else 43) :: x :: xs ++ [c]))).split.1
    obtain ⟨he, hs, hx0, hfrom⟩ := hexp (at_append.1 h2).2
    have hM : (digitsValue rest + (d.toNat - 48) * 10 ^ rest.length) * 10 ^ fs.length +
        digitsValue fs = digitsValue (d :: rest ++ fs) := by
      rw [List.cons_append, digitsValue_cons, digitsValue_append, List.length_append]
      ring
    unfold number
    cases neg
    all_goals
      simp only [runFrom_bind, runFrom_next_of h0, runFrom_pure, runFrom_peek, hint, hpt, hfrac,
        he, hs, hfrom, hd48', hd, hx, hfn, beq_self_eq_true, if_true, if_false, Bool.false_eq_true,
        Bool.true_or, Bool.not_true, runFrom_eat, runFrom_next_of hx0, runFrom_read, runFrom_get,
        runFrom_set, Option.isNone_some, Bool.false_and, Option.getD_some, Nat.pow_eq, hM]
      rw [Decimal.keepDigits_of_lt (by decide)
        ((Decimal.dropZeros_value fs.length _ _).2.trans_lt hsig)]
      refine ⟨_, _, (Decimal.dropZeros_value fs.length _ _).1, fun hfin => ?_⟩
      simp only [hfin, if_true, runFrom_pure, List.length_cons]
      congr 1
      omega

theorem runFrom_number_integer (pos : Bool) {is : List UInt8} {c : UInt8} (his : Leading is)
    (hc : EndsNumber c) (hv : digitsValue is < 2 ^ 64) (h : At b i (is ++ [c])) :
    runFrom (number pos) b i =
      (.ok (if pos then .unsigned (digitsValue is)
        else if digitsValue is = 0 then .float (-0.0)
        else if digitsValue is ≤ 2 ^ 63 then .signed (-(digitsValue is : Int))
        else .float (Decimal.toFloat true (digitsValue is) 0)), i + is.length) := by
  obtain ⟨h46, h101, h69⟩ := hc.beq
  rcases his with rfl | ⟨d, rest, rfl, hd, hd48, hrest⟩
  · -- a lone zero
    obtain ⟨h0, h1⟩ := at_cons.1 h
    have hend : b[i + 1]? = some c := (at_cons.1 h1).1
    have hzero : digitsValue [48] = 0 := rfl
    unfold number
    simp only [runFrom_bind, runFrom_next_of h0, runFrom_pure, runFrom_peek, hend, hc.1, hzero,
      beq_self_eq_true, if_true, if_false, Bool.false_eq_true, Option.some_beq_some, h46, h101,
      h69, Bool.or_false, Option.isNone_none, Bool.true_and, Nat.pow_eq, decide_eq_true_eq,
      Nat.pos_of_neZero, List.length_singleton]
    cases pos <;> rfl
  · -- digits led by a nonzero one
    simp only [List.cons_append] at h
    obtain ⟨h0, h1⟩ := at_cons.1 h
    have hint := runFrom_digits hrest hc.1 h1
    have hend : b[i + 1 + rest.length]? = some c := h1.split.2.1
    have hM : digitsValue rest + (d.toNat - 48) * 10 ^ rest.length = digitsValue (d :: rest) := by
      rw [digitsValue_cons, Nat.add_comm]
    have hd48' : (d == 48) = false := by simpa using hd48
    unfold number
    simp only [runFrom_bind, runFrom_next_of h0, runFrom_pure, runFrom_peek, hint, hend, hd48', hd,
      if_true, if_false, Bool.false_eq_true, Option.some_beq_some, h46, h101, h69, Bool.or_false,
      Option.isNone_none, Bool.true_and, Nat.pow_eq, hM, hv, decide_true, List.length_cons]
    rw [show i + (rest.length + 1) = i + 1 + rest.length by omega]
    cases pos <;> split_ifs <;> rfl

theorem leading_digitBytes (n : Nat) : Leading (digitBytes n) := by
  obtain ⟨hd, hv⟩ := digitBytes_spec n
  rcases Nat.eq_zero_or_pos n with rfl | hn
  · exact .inl rfl
  · have hne : digitBytes n ≠ [] := by
      rw [digitBytes, Ne, List.map_eq_nil_iff]
      exact List.ne_nil_of_length_pos Nat.length_toDigits_pos
    obtain ⟨d, rest, hdr⟩ := List.exists_cons_of_ne_nil hne
    refine .inr ⟨d, rest, hdr, hd d (by simp [hdr]), ?_, fun x hx => hd x (by simp [hdr, hx])⟩
    rintro rfl
    -- a leading zero would leave the number below the power of ten of its length
    have hlen : (Nat.toDigits 10 n).length = rest.length + 1 := by
      rw [← List.length_map (f := fun c : Char => c.toNat.toUInt8), ← digitBytes, hdr, List.length_cons]
    have hlow := (Decimal.pow_digits_bounds hn).1
    have hrest : digitsValue rest < 10 ^ rest.length :=
      digitsValue_lt fun x hx => hd x (by simp [hdr, hx])
    rw [hdr, digitsValue_cons] at hv
    rw [hlen, Nat.add_sub_cancel] at hlow
    simp at hv
    omega

theorem textBytes_intRepr (n : Int) :
    textBytes (toString n) = (if n < 0 then [45] else []) ++ digitBytes n.natAbs := by
  cases n with
  | ofNat m => simp [toString, Int.repr, textBytes_repr]
  | negSucc m =>
    simp only [toString, Int.repr, textBytes_append, textBytes_repr, Int.negSucc_lt_zero, if_true,
      Int.natAbs_negSucc]
    rfl

theorem runFrom_readNumber {ws : List UInt8} (hw : Blanks ws) (expected : String) (neg : Bool)
    {x : UInt8} (hx : isDigit x = true) {xs : List UInt8}
    (h : At b i (ws ++ (if neg then [45] else []) ++ x :: xs)) {r : Number} {j : Nat}
    (hr : runFrom (number (!neg)) b (i + ws.length + (if neg then 1 else 0)) = (.ok r, j)) :
    runFrom (readNumber expected) b i = (.ok r, j) := by
  apply placing_ok
  cases neg
  · have hs := runFrom_skipBlank hw (isBlank_of_isDigit hx) (by simpa using h.split.1)
    simp only [runFrom_bind, hs]
    split
    next heq => exact absurd heq (by simp)
    next heq => cases heq; exact absurd hx (by decide)
    next heq =>
      cases heq
      simp only [hx, if_true]
      simpa using hr
  · have hs := runFrom_skipBlank hw (c := 45) rfl (by simpa using (at_append.1 h).1)
    simp only [runFrom_bind, hs, runFrom_eat]
    simpa using hr

theorem runFrom_readInt {ws : List UInt8} (hw : Blanks ws) {n : Int} (hlo : -2 ^ 63 ≤ n)
    (hhi : n < 2 ^ 63) {c : UInt8} (hc : EndsNumber c)
    (h : At b i (ws ++ textBytes (toString n) ++ [c])) :
    runFrom readInt b i = (.ok n, i + ws.length + (textBytes (toString n)).length) := by
  rw [textBytes_intRepr] at h ⊢
  obtain ⟨-, hv⟩ := digitBytes_spec n.natAbs
  obtain ⟨x, xs, hx, hxd⟩ := (leading_digitBytes n.natAbs).cons
  apply placing_ok
  rcases lt_or_ge n 0 with hneg | hnn
  · -- a minus sign before the digits
    simp only [hneg, if_true, List.append_assoc, List.singleton_append] at h ⊢
    have hd : At b (i + ws.length + 1) (digitBytes n.natAbs ++ [c]) := by
      have := (at_append.1 h).2
      exact (at_cons.1 this).2
    have hnum := runFrom_number_integer false (leading_digitBytes _) hc (by rw [hv]; omega) hd
    rw [hv] at hnum
    rw [runFrom_bind, runFrom_readNumber hw "i64" true hxd (by simpa [hx] using h) hnum]
    simp only [Bool.false_eq_true, if_false, show n.natAbs ≠ 0 by omega,
      show n.natAbs ≤ 2 ^ 63 by omega, if_true, runFrom_pure, List.length_cons,
      show -(n.natAbs : Int) = n by omega]
    exact Prod.ext rfl (by simp only; omega)
  · simp only [show ¬ n < 0 by omega, if_false, List.nil_append, List.append_assoc] at h ⊢
    have hnum := runFrom_number_integer true (leading_digitBytes _) hc (by rw [hv]; omega)
      (at_append.1 h).2
    rw [hv] at hnum
    rw [runFrom_bind, runFrom_readNumber hw "i64" false hxd (by simpa [hx] using h)
      (by simpa using hnum)]
    simp only [if_true, Nat.pow_eq, show n.natAbs < 2 ^ 63 by omega, runFrom_pure,
      show (n.natAbs : Int) = n by omega]

/-! ## Literals -/

theorem runFrom_ident {rest : List UInt8} (h : At b i rest) :
    runFrom (ident rest) b i = (.ok (), i + rest.length) := by
  induction rest generalizing i with
  | nil => rfl
  | cons x xs ih =>
    obtain ⟨hx, h'⟩ := at_cons.1 h
    unfold ident at ih ⊢
    simp only [List.forM_eq_forM] at ih ⊢
    simp only [List.forM_cons, runFrom_bind, runFrom_next_of hx, bne_self_eq_false,
      Bool.false_eq_true, if_false, runFrom_pure, ih h', List.length_cons]
    congr 1
    omega

theorem runFrom_readBool {ws : List UInt8} (hw : Blanks ws) (v : Bool)
    (h : At b i (ws ++ textBytes (if v then "true" else "false"))) :
    runFrom readBool b i =
      (.ok v, i + ws.length + (textBytes (if v then "true" else "false")).length) := by
  apply placing_ok
  cases v
  · have hb : textBytes "false" = [102, 97, 108, 115, 101] := rfl
    simp only [Bool.false_eq_true, if_false, hb] at h ⊢
    obtain ⟨h₁, -, h₂⟩ := h.split
    simp only [runFrom_bind, runFrom_skipBlank hw rfl h₁, runFrom_eat, runFrom_ident h₂,
      runFrom_pure, List.length_cons, List.length_nil]
  · have hb : textBytes "true" = [116, 114, 117, 101] := rfl
    simp only [if_true, hb] at h ⊢
    obtain ⟨h₁, -, h₂⟩ := h.split
    simp only [runFrom_bind, runFrom_skipBlank hw rfl h₁, runFrom_eat, runFrom_ident h₂,
      runFrom_pure, List.length_cons, List.length_nil]

end MixedFem.Reader
