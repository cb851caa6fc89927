import MixedFem.Proofs.Json.Numbers
import MixedFem.Proofs.Float.Shortest

/-!
# Reading floats back from their text

* `decode_toBits_of_isFinite` : a finite float decodes to a sign, a significand and an exponent;
* `toFloat_of_roundsTo`, `toFloat_of_zero` : a decimal that rounds to the value of a float, and a
  zero of its sign, are read as that float;
* `textBytes_ofList_ascii`, `textBytes_zeros` : the bytes of digits and zeros;
* `runFrom_number_write` : the number reader reads the data text of a positive decimal back to a
  decimal of the same value;
* `runFrom_readReal` : every finite float is read back from its text.
-/

namespace MixedFem.Decimal

open BinaryFormat

/-! ## Finite floats and their bits -/

theorem decode_toBits_of_isFinite {x : Float} (hx : x.isFinite = true) :
    ∃ neg m e, binary64.decode x.toBits.toNat = .finite neg m e := by
  -- a finite float does not have the all-ones exponent of infinities and NaNs
  have hexp : x.toBits.toNat / 2 ^ 52 % 2 ^ 11 ≠ 2047 := by
    intro h
    have hv : @Float.Model.UnpackedFloat.unpackExponent .binary64 x.toBits.toBitVec =
        -1#11 := by
      apply BitVec.eq_of_toNat_eq
      rw [Float.Model.UnpackedFloat.unpackExponent_def]
      simp [BitVec.extractLsb'_toNat, Nat.shiftRight_eq_div_pow]
      omega
    unfold Float.isFinite Float.Model.isFinite Float.Model.unpack
      Float.Model.UnpackedFloat.unpack at hx
    simp only [show x.toModel.toBits = x.toBits from rfl] at hx
    rw [if_pos hv] at hx
    split at hx <;> simp [Float.Model.UnpackedFloat.isFinite] at hx
  unfold decode
  simp only [binary64, fractionBits, specialExponent, Nat.pow_eq, Nat.add_one_sub_one,
    show 2 ^ 11 - 1 = 2047 from rfl, hexp, if_false]
  by_cases h0 : x.toBits.toNat / 2 ^ 52 % 2 ^ 11 = 0
  · exact ⟨_, _, _, if_pos h0⟩
  · exact ⟨_, _, _, if_neg h0⟩

theorem toFloat_of_bits {x : Float} {neg : Bool} {M : Nat} {E : Int}
    (h : toBinaryBits .binary64 neg M E = x.toBits.toNat) : toFloat neg M E = x := by
  rw [toFloat, h, Nat.toUInt64_eq, UInt64.ofNat_toNat, Float.ofBits_toBits]

/-- A decimal that rounds to the value of a positive float is read as that float. -/
theorem toFloat_of_roundsTo {x : Float} {neg : Bool} {m : Nat} {e : Int}
    (hd : binary64.decode x.toBits.toNat = .finite neg m e) (hm : 0 < m) {M : Nat} {E : Int}
    (hM : 0 < M) (hv : RoundsTo m e (M * 10 ^ E)) : toFloat neg M E = x :=
  toFloat_of_bits (toBinaryBits_of_roundsTo x.toBits.toNat_lt hd hm hM hv)

/-- A zero is read as the zero of its sign. -/
theorem toFloat_of_zero {x : Float} {neg : Bool} {e : Int}
    (hd : binary64.decode x.toBits.toNat = .finite neg 0 e) (E : Int) : toFloat neg 0 E = x := by
  apply toFloat_of_bits
  obtain ⟨-, -, -, -, hbits, -⟩ := decode_finite x.toBits.toNat_lt hd
  rw [hbits (by norm_num), toBinaryBits]
  simp only [true_or, if_true, roundBits, binary64_signBit, Nat.add_zero]

end MixedFem.Decimal

namespace MixedFem.Reader

variable {b : ByteArray} {i : Nat}

/-! ## The bytes of a written decimal -/

theorem textBytes_ofList_ascii {cs : List Char} (h : ∀ c ∈ cs, c.toNat < 128) :
    textBytes (String.ofList cs) = cs.map fun c => c.toNat.toUInt8 := by
  rw [textBytes_ofList, ← List.flatMap_pure_eq_map]
  apply List.flatMap_congr
  intro c hc
  rw [utf8EncodeChar_ascii (h c hc)]
  rfl

theorem textBytes_zeros (k : Nat) : textBytes (NumberStyle.zeros k) = List.replicate k 48 := by
  rw [NumberStyle.zeros, textBytes_ofList_ascii (by simp), List.map_replicate]
  rfl

theorem digitChar_ascii {n : Nat} {c : Char} (h : c ∈ Nat.toDigits 10 n) : c.toNat < 128 := by
  have := digitChar_lt h
  omega

theorem textBytes_toString_nat (n : Nat) : textBytes (toString n) = digitBytes n :=
  textBytes_repr n

theorem textBytes_digits_take (n k : Nat) :
    textBytes (String.ofList ((Nat.toDigits 10 n).take k)) = (digitBytes n).take k := by
  rw [textBytes_ofList_ascii fun _ hc => digitChar_ascii (List.mem_of_mem_take hc), digitBytes,
    List.map_take]

theorem textBytes_digits_drop (n k : Nat) :
    textBytes (String.ofList ((Nat.toDigits 10 n).drop k)) = (digitBytes n).drop k := by
  rw [textBytes_ofList_ascii fun _ hc => digitChar_ascii (List.mem_of_mem_drop hc), digitBytes,
    List.map_drop]

/-- The data text of a positive decimal: positional from `1e-5` below `1e16`, with `.0` after an
integral value, and otherwise its leading digit, the other digits after a point, and a signed
exponent. -/
theorem textBytes_write_data (d : Decimal) :
    textBytes (NumberStyle.data.write d) =
      let dbs := digitBytes d.digits
      let sci : Int := d.exponent + dbs.length - 1
      if -5 ≤ sci ∧ sci ≤ 15 then
        if 0 ≤ sci then
          if dbs.length ≤ sci.toNat + 1 then
            dbs ++ List.replicate (sci.toNat + 1 - dbs.length) 48 ++ [46, 48]
          else dbs.take (sci.toNat + 1) ++ 46 :: dbs.drop (sci.toNat + 1)
        else 48 :: 46 :: (List.replicate ((-sci).toNat - 1) 48 ++ dbs)
      else dbs.take 1 ++ pointBytes (dbs.drop 1) ++
        exponentBytes (decide (sci < 0)) (digitBytes sci.natAbs) := by
  have hlen : (digitBytes d.digits).length = (Nat.toDigits 10 d.digits).length :=
    List.length_map _
  have hds : textBytes (String.ofList (Nat.toDigits 10 d.digits)) = digitBytes d.digits :=
    textBytes_ofList_ascii fun _ hc => digitChar_ascii hc
  -- the leading digit alone, then the others after a point
  have hmant (m : String) (hm : ∀ c, Nat.toDigits 10 d.digits = [c] → m = String.singleton c)
      (hm' : ∀ c rest, rest ≠ [] → Nat.toDigits 10 d.digits = c :: rest →
        m = String.singleton c ++ "." ++ String.ofList rest) :
      textBytes m = (digitBytes d.digits).take 1 ++ pointBytes ((digitBytes d.digits).drop 1) := by
    obtain ⟨c, rest, hcs⟩ := List.exists_cons_of_ne_nil
      (List.ne_nil_of_length_pos (Nat.length_toDigits_pos (b := 10) (n := d.digits)))
    have hc := digitChar_ascii (n := d.digits) (hcs ▸ List.mem_cons_self)
    have hrest : textBytes (String.ofList rest) = rest.map fun c => c.toNat.toUInt8 :=
      textBytes_ofList_ascii fun x hx => digitChar_ascii (n := d.digits) (hcs ▸ List.mem_cons_of_mem _ hx)
    rw [digitBytes, hcs]
    rcases eq_or_ne rest [] with rfl | hne
    · rw [hm c hcs, textBytes_singleton, utf8EncodeChar_ascii hc]
      rfl
    · rw [hm' c rest hne hcs, textBytes_append, textBytes_append, textBytes_singleton,
        utf8EncodeChar_ascii hc, hrest]
      simp [pointBytes, hne]
      rfl
  unfold NumberStyle.write
  simp only [NumberStyle.data, hlen]
  split_ifs with hpos hnn hwhole hneg
  · simp only [textBytes_append, hds, textBytes_zeros]
    rfl
  · simp only [textBytes_append, textBytes_digits_take, textBytes_digits_drop,
      show textBytes "." = [46] from rfl, List.append_assoc, List.singleton_append]
  · simp only [textBytes_append, hds, textBytes_zeros]
    rfl
  all_goals
    rw [textBytes_append, textBytes_append, hmant _ (fun c h => by rw [h]) (fun c rest hne h => by
      rw [h]; split <;> simp_all), textBytes_append, textBytes_toString_nat]
    simp [exponentBytes, hneg]
    rfl

/-- The data text of a positive decimal starts with a digit. -/
theorem textBytes_write_head (d : Decimal) :
    ∃ x xs, textBytes (NumberStyle.data.write d) = x :: xs ∧ isDigit x = true := by
  obtain ⟨d0, rest, hdr, hd0⟩ := (leading_digitBytes d.digits).cons
  rw [textBytes_write_data]
  simp only
  split_ifs
  · exact ⟨d0, _, by rw [hdr]; rfl, hd0⟩
  · exact ⟨d0, _, by rw [hdr]; rfl, hd0⟩
  · exact ⟨48, _, rfl, rfl⟩
  · exact ⟨d0, _, by rw [hdr]; rfl, hd0⟩

/-! ## Reading a written decimal -/

theorem cast_mul_zpow {V D k : Nat} {E X : Int} (hV : V = D * 10 ^ k) (hE : E + k = X) :
    (V : ℚ) * 10 ^ E = D * 10 ^ X := by
  rw [hV, ← hE, zpow_add₀ (by norm_num), zpow_natCast]
  push_cast
  ring

/-- The number reader reads the data text of a positive decimal, in each of its layouts, to a
decimal of the same value. The exponent bounds are those of the shortest decimals of floats. -/
theorem runFrom_number_write (pos : Bool) {d : Decimal} (hD : 0 < d.digits)
    (hX : -326 ≤ d.exponent) (hnX : ((Nat.toDigits 10 d.digits).length : Int) + d.exponent ≤ 320)
    {c : UInt8} (hc : EndsNumber c) (h : At b i (textBytes (NumberStyle.data.write d) ++ [c])) :
    ∃ (M : Nat) (E : Int), (M : ℚ) * 10 ^ E = d.digits * 10 ^ d.exponent ∧
      ((Decimal.toFloat (!pos) M E).isFinite = true →
        runFrom (number pos) b i = (.ok (.float (Decimal.toFloat (!pos) M E)),
          i + (textBytes (NumberStyle.data.write d)).length)) := by
  obtain ⟨hdig, hval⟩ := digitBytes_spec d.digits
  have hlen : (digitBytes d.digits).length = (Nat.toDigits 10 d.digits).length := List.length_map _
  obtain ⟨-, hup⟩ := Decimal.pow_digits_bounds hD
  rw [← hlen] at hup hnX
  -- the leading digit is not a zero
  obtain ⟨d0, rest, hdr, hd0, hd48, hrest⟩ := (leading_digitBytes d.digits).resolve_left fun h0 => by
    rw [h0] at hval; simp [digitsValue, digitsFold] at hval; omega
  have hsig {k : Nat} (hk : (digitBytes d.digits).length + k ≤ significantDigits) :
      d.digits * 10 ^ k < 10 ^ significantDigits :=
    calc d.digits * 10 ^ k < 10 ^ (digitBytes d.digits).length * 10 ^ k :=
          Nat.mul_lt_mul_of_pos_right hup (Nat.pow_pos (by norm_num))
      _ ≤ 10 ^ significantDigits := by
          rw [← Nat.pow_add]; exact Nat.pow_le_pow_right (by norm_num) hk
  have hsig0 : digitsValue (digitBytes d.digits) < 10 ^ significantDigits := by
    simpa [hval] using hsig (k := 0) (by simp [significantDigits]; omega)
  rw [textBytes_write_data] at h ⊢
  simp only at h ⊢
  split_ifs at h ⊢ with hpos hnn hwhole
  · -- an integral value: the digits, zeros and `.0`
    set z := (d.exponent + (digitBytes d.digits).length - 1).toNat + 1 - (digitBytes d.digits).length
    have hV : digitsValue (digitBytes d.digits ++ List.replicate z 48 ++ [48]) = d.digits * 10 ^ (z + 1) := by
      rw [digitsValue_append, digitsValue_append, digitsValue_replicate_zero, hval,
        show digitsValue [48] = 0 from rfl]
      simp only [List.length_singleton, List.length_replicate, pow_succ]
      ring
    obtain ⟨M, E, hv, hrun⟩ := runFrom_number_point pos (digitBytes d.digits ++ List.replicate z 48)
      [48] (.inr ⟨d0, rest ++ List.replicate z 48, by rw [hdr]; rfl, hd0, hd48,
        fun x hx => by
          rcases List.mem_append.1 hx with hx | hx
          · exact hrest x hx
          · rw [List.eq_of_mem_replicate hx]; rfl⟩)
      (by simp; rfl) (by simp) hc (by rw [hV]; exact hsig (by simp [significantDigits]; omega))
      (by simpa using h)
    refine ⟨M, E, hv.trans (cast_mul_zpow hV (by simp; omega)), fun hfin => (hrun hfin).trans ?_⟩
    simp only [List.length_append, List.length_replicate, List.length_cons, List.length_nil]
  · -- a point among the digits
    set w := (d.exponent + (digitBytes d.digits).length - 1).toNat + 1
    have htake : (digitBytes d.digits).take w = d0 :: rest.take (w - 1) := by
      rw [hdr]
      rfl
    have hfs : (digitBytes d.digits).drop w ≠ [] := by
      rw [Ne, List.drop_eq_nil_iff]; omega
    have hV : digitsValue ((digitBytes d.digits).take w ++ (digitBytes d.digits).drop w) =
        d.digits * 10 ^ 0 := by
      rw [List.take_append_drop, hval, pow_zero, Nat.mul_one]
    obtain ⟨M, E, hv, hrun⟩ := runFrom_number_point pos ((digitBytes d.digits).take w)
      ((digitBytes d.digits).drop w)
      (.inr ⟨d0, rest.take (w - 1), htake, hd0, hd48, fun x hx => hrest x (List.mem_of_mem_take hx)⟩)
      (fun x hx => hdig x (List.mem_of_mem_drop hx)) hfs hc
      (by rw [hV]; exact hsig (by simp [significantDigits]; omega)) (by simpa using h)
    refine ⟨M, E, hv.trans (cast_mul_zpow hV (by simp; omega)), fun hfin => (hrun hfin).trans ?_⟩
    simp only [List.length_append, List.length_cons, List.length_take, List.length_drop]
    congr 2
  · -- below one: `0.`, zeros, then the digits
    set k := (-(d.exponent + (digitBytes d.digits).length - 1)).toNat - 1
    have hV : digitsValue ([48] ++ (List.replicate k 48 ++ digitBytes d.digits)) =
        d.digits * 10 ^ 0 := by
      rw [digitsValue_append, digitsValue_append, digitsValue_replicate_zero, hval,
        show digitsValue [48] = 0 from rfl]
      simp
    obtain ⟨M, E, hv, hrun⟩ := runFrom_number_point pos [48]
      (List.replicate k 48 ++ digitBytes d.digits) (.inl rfl)
      (fun x hx => by
        rcases List.mem_append.1 hx with hx | hx
        · rw [List.eq_of_mem_replicate hx]; rfl
        · exact hdig x hx)
      (by simp [hdr]) hc (by rw [hV]; exact hsig (by simp [significantDigits]; omega))
      (by simpa using h)
    refine ⟨M, E, hv.trans (cast_mul_zpow hV (by simp; omega)), fun hfin => (hrun hfin).trans ?_⟩
    simp only [List.length_append, List.length_cons, List.length_replicate, List.length_nil]
    congr 2
    omega
  · -- scientific notation: the leading digit, the others after a point, and the exponent
    set sci := d.exponent + (digitBytes d.digits).length - 1
    obtain ⟨hxd, hxv⟩ := digitBytes_spec sci.natAbs
    have hxs : digitBytes sci.natAbs ≠ [] := by
      obtain ⟨x, xs, hx, -⟩ := (leading_digitBytes sci.natAbs).cons
      simp [hx]
    have hV : digitsValue (d0 :: [] ++ rest) = d.digits * 10 ^ 0 := by
      rw [List.cons_append, List.nil_append, ← hdr, hval, pow_zero, Nat.mul_one]
    rw [hdr, List.take_succ_cons, List.take_zero, List.drop_succ_cons, List.drop_zero] at h ⊢
    obtain ⟨M, E, hv, hrun⟩ := runFrom_number_exponent pos (decide (sci < 0)) []
      rest hd0 hd48 (by simp) hrest hxd hxs (by rw [hxv]; omega) hc
      (by rw [hV]; exact hsig (by simp [significantDigits]; omega)) (by simpa using h)
    have hlen' : (digitBytes d.digits).length = rest.length + 1 := by rw [hdr, List.length_cons]
    refine ⟨M, E, hv.trans (cast_mul_zpow hV ?_), fun hfin => (hrun hfin).trans ?_⟩
    · by_cases hs : sci < 0 <;> simp [hs] <;> omega
    · simp only [exponentBytes, List.length_append, List.length_cons, List.length_nil]
      congr 2

/-- Every finite float is read back from its data text. -/
theorem runFrom_readReal {ws : List UInt8} (hw : Blanks ws) {x : Float} (hx : x.isFinite = true)
    {c : UInt8} (hc : EndsNumber c)
    (h : At b i (ws ++ textBytes (NumberStyle.data.writeFloat x) ++ [c])) :
    runFrom readReal b i =
      (.ok x, i + ws.length + (textBytes (NumberStyle.data.writeFloat x)).length) := by
  obtain ⟨neg, m, e, hd⟩ := Decimal.decode_toBits_of_isFinite hx
  have hb := x.toBits.toNat_lt
  -- the sign, then a zero or the shortest decimal of the value
  have hwf : textBytes (NumberStyle.data.writeFloat x) = (if neg then [45] else []) ++
      textBytes (if m = 0 then "0.0" else NumberStyle.data.write (Decimal.ofBinary .toEven .binary64 m e)) := by
    rw [NumberStyle.writeFloat, hd, NumberStyle.writeBinary]
    simp only [show NumberStyle.data.pointZero = true from rfl,
      show NumberStyle.data.tie = .toEven from rfl, if_true]
    cases neg <;> split_ifs <;> simp only [textBytes_append] <;> rfl
  rw [hwf] at h ⊢
  -- the number after the sign, read to a decimal of the value of the float
  have hnum : ∀ j, At b j (textBytes (if m = 0 then "0.0" else
        NumberStyle.data.write (Decimal.ofBinary .toEven .binary64 m e)) ++ [c]) →
      runFrom (number (!neg)) b j = (.ok (.float x), j + (textBytes (if m = 0 then "0.0" else
        NumberStyle.data.write (Decimal.ofBinary .toEven .binary64 m e))).length) := by
    intro j hj
    split_ifs at hj ⊢ with hm
    · subst hm
      obtain ⟨M, E, hv, hrun⟩ := runFrom_number_point (!neg) [48] [48] (.inl rfl)
        (by simp; rfl) (by simp) hc
        (by rw [show digitsValue ([48] ++ [48]) = 0 from rfl]; exact Nat.pow_pos (by norm_num)) hj
      have hM : M = 0 := by
        have : (M : ℚ) * 10 ^ E = 0 := by rw [hv]; simp [digitsValue, digitsFold]
        exact_mod_cast (mul_eq_zero.1 this).resolve_right (zpow_ne_zero _ (by norm_num))
      subst hM
      rw [Bool.not_not, Decimal.toFloat_of_zero hd] at hrun
      exact hrun hx
    · have hm0 := Nat.pos_of_ne_zero hm
      obtain ⟨hX, hD, hv⟩ := Decimal.ofBinary_spec .toEven hm0 (BinaryFormat.decode_finite hb hd).2.1
        (Decimal.decode_exponent_le hb hd)
      obtain ⟨M, E, hME, hrun⟩ := runFrom_number_write (!neg) hD hX
        (Decimal.count_add_exponent_le hb hd hm0 hD hv) hc hj
      have hM : 0 < M := by
        have hpos : (0 : ℚ) < M * 10 ^ E := by rw [hME]; positivity
        exact_mod_cast pos_of_mul_pos_left hpos (by positivity)
      rw [Bool.not_not, Decimal.toFloat_of_roundsTo hd hm0 hM (hME ▸ hv)] at hrun
      exact hrun hx
  obtain ⟨x0, xs, hx0, hxd⟩ : ∃ x0 xs, textBytes (if m = 0 then "0.0" else
      NumberStyle.data.write (Decimal.ofBinary .toEven .binary64 m e)) = x0 :: xs ∧
        isDigit x0 = true := by
    split_ifs
    · exact ⟨48, _, rfl, rfl⟩
    · exact textBytes_write_head _
  have hsign : ((if neg then [45] else []) : List UInt8).length = if neg then 1 else 0 := by
    cases neg <;> rfl
  simp only [List.append_assoc] at h
  obtain ⟨hws, h'⟩ := at_append.1 h
  obtain ⟨-, h''⟩ := at_append.1 h'
  rw [hsign] at h''
  apply placing_ok
  rw [runFrom_bind, runFrom_readNumber hw "f64" neg hxd (by simpa [hx0] using h) (hnum _ h'')]
  simp only [runFrom_pure, List.length_append, hsign]
  congr 1
  omega

end MixedFem.Reader
