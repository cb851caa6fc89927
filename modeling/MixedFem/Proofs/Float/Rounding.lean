import Mathlib
import MixedFem.Float.Binary

/-!
# Rounding to nearest in binary64

`roundBits` rounds an exact dyadic value to the nearest value of the format, a tie going to the
even significand. `RoundsTo m e v` says that the rational `v` lies in the rounding interval of the
finite positive value `m * 2^e`; `roundBits_of_roundsTo` : every such `v` rounds to the bits of
that value. `roundShift_eq` and `keep_eq` say which significand `roundBits` keeps, and
`decode_finite` how the bits of a finite value are laid out.
-/

namespace MixedFem.BinaryFormat

/-- The quotient `m / 2^s` rounds to `n` when `m` lies within half of `2^s` of `n * 2^s`, a tie
going to the even `n`. -/
theorem roundShift_eq {m s n : Nat} (hs : 0 < s)
    (h : |(2 * m : ℤ) - 2 * n * 2 ^ s| ≤ 2 ^ s)
    (htie : |(2 * m : ℤ) - 2 * n * 2 ^ s| = 2 ^ s → n % 2 = 0) :
    roundShift m s = n := by
  unfold roundShift
  rw [if_neg (by omega)]
  simp only [Nat.pow_eq]
  have hhalf : 2 ^ s = 2 * 2 ^ (s - 1) := by rw [← pow_succ']; congr 1; omega
  have hlt : m % 2 ^ s < 2 ^ s := Nat.mod_lt _ (Nat.pow_pos (by norm_num))
  have hmZ : (m : ℤ) = 2 ^ s * ↑(m / 2 ^ s) + ↑(m % 2 ^ s) := by
    exact_mod_cast (Nat.div_add_mod m (2 ^ s)).symm
  generalize m / 2 ^ s = Q at hmZ ⊢
  generalize m % 2 ^ s = R at hmZ hlt ⊢
  generalize 2 ^ (s - 1) = H at hhalf ⊢
  have hP : ((2 ^ s : ℕ) : ℤ) = 2 ^ s := by push_cast; rfl
  rw [← hP] at h htie hmZ
  generalize 2 ^ s = P at hhalf hlt hmZ h htie hP
  have hR : (R : ℤ) < P := by exact_mod_cast hlt
  -- `n` is `Q` or `Q + 1`
  have hn : n = Q ∨ n = Q + 1 := by
    rw [hmZ] at h
    have hP0 : (0 : ℤ) < P := by omega
    rcases abs_le.1 h with ⟨h1, h2⟩
    have : (Q : ℤ) ≤ n := by
      by_contra hc
      push Not at hc
      nlinarith
    have : (n : ℤ) ≤ Q + 1 := by
      by_contra hc
      push Not at hc
      nlinarith
    omega
  rcases hn with rfl | rfl
  · -- the rest is at most a half, and a half only at an even `Q`
    have hd : (2 * m : ℤ) - 2 * n * P = 2 * R := by rw [hmZ]; ring
    rw [hd, abs_of_nonneg (by positivity)] at h htie
    have hodd : R = H → n % 2 = 0 := fun hRH => htie (by omega)
    rw [if_neg (by omega)]
  · have hd : (2 * m : ℤ) - 2 * ((Q + 1 : Nat) : ℤ) * P = -(2 * (P - R)) := by
      rw [hmZ]; push_cast; ring
    rw [hd, abs_neg, abs_of_nonneg (by omega)] at h htie
    have hodd : R = H → (Q + 1) % 2 = 0 := fun hRH => htie (by omega)
    rw [if_pos (by omega)]

/-- The significand `roundBits` keeps at the exponent `q`, `m * 2^(e - q)` when that is exact and
`m / 2^(q - e)` rounded otherwise, is the `n` within half a unit of `m * 2^e / 2^q`, a tie going
to the even `n`. -/
theorem keep_eq {m : Nat} {e q : Int} {n : Nat}
    (h : |(m : ℚ) * 2 ^ e - n * 2 ^ q| ≤ 2 ^ q / 2)
    (htie : |(m : ℚ) * 2 ^ e - n * 2 ^ q| = 2 ^ q / 2 → n % 2 = 0) :
    (if q ≤ e then m * 2 ^ (e - q).toNat else roundShift m (q - e).toNat) = n := by
  by_cases hq : q ≤ e
  · rw [if_pos hq]
    obtain ⟨k, hk⟩ : ∃ k : Nat, e = q + k := ⟨(e - q).toNat, by omega⟩
    have hkq : (e - q).toNat = k := by omega
    rw [hkq]
    have hsplit : (m : ℚ) * 2 ^ e - n * 2 ^ q = 2 ^ q * ((m * 2 ^ k - n : ℤ) : ℚ) := by
      rw [hk, zpow_add₀ (by norm_num), zpow_natCast]; push_cast; ring
    rw [hsplit, abs_mul, abs_of_pos (by positivity)] at h
    have hhalf : |((m * 2 ^ k - n : ℤ) : ℚ)| ≤ 1 / 2 := by
      have hq0 : (0 : ℚ) < 2 ^ q := by positivity
      nlinarith
    have hzero : (m * 2 ^ k - n : ℤ) = 0 := by
      rw [← Int.cast_abs] at hhalf
      have hlt : ((|(m * 2 ^ k - n : ℤ)| : ℤ) : ℚ) < 1 := by linarith
      exact Int.abs_lt_one_iff.1 (by exact_mod_cast hlt)
    exact_mod_cast (sub_eq_zero.1 hzero)
  · rw [if_neg hq]
    obtain ⟨s, hs, hsq⟩ : ∃ s : Nat, 0 < s ∧ q = e + s := ⟨(q - e).toNat, by omega, by omega⟩
    have hsq' : (q - e).toNat = s := by omega
    rw [hsq']
    have hsplit : (m : ℚ) * 2 ^ e - n * 2 ^ q = 2 ^ e / 2 * ((2 * m - 2 * n * 2 ^ s : ℤ) : ℚ) := by
      rw [hsq, zpow_add₀ (by norm_num), zpow_natCast]; push_cast; ring
    have hq2 : (2 : ℚ) ^ q / 2 = 2 ^ e / 2 * ((2 ^ s : ℤ) : ℚ) := by
      rw [hsq, zpow_add₀ (by norm_num), zpow_natCast]; push_cast; ring
    have he : (0 : ℚ) < 2 ^ e / 2 := by positivity
    rw [hsplit, hq2, abs_mul, abs_of_pos he] at h htie
    refine roundShift_eq hs ?_ fun hx => htie ?_
    · have h' := (mul_le_mul_iff_right₀ he).1 h
      rw [← Int.cast_abs] at h'
      exact_mod_cast h'
    · rw [← Int.cast_abs, hx]

theorem binary64_fractionBits : binary64.fractionBits = 52 := rfl
theorem binary64_precision : binary64.precision = 53 := rfl
theorem binary64_minQuantum : binary64.minQuantum = -1074 := by decide
theorem binary64_specialExponent : binary64.specialExponent = 2047 := by decide
theorem binary64_signBit : binary64.signBit = 2 ^ 63 := by decide

/-- The finite values of binary64 and their bits: a significand below `2^53`, normalised unless
at the least exponent, and below `2^52` only there. -/
theorem decode_finite {bits : Nat} (hb : bits < 2 ^ 64) {neg : Bool} {m : Nat} {e : Int}
    (h : binary64.decode bits = .finite neg m e) :
    m < 2 ^ 53 ∧ -1074 ≤ e ∧ (m < 2 ^ 52 → e = -1074) ∧ (e ≠ -1074 → 2 ^ 52 ≤ m) ∧
      (m < 2 ^ 52 → bits = (if neg then 2 ^ 63 else 0) + m) ∧
      (2 ^ 52 ≤ m → (e + 1075).toNat < 2047 ∧
        bits = (if neg then 2 ^ 63 else 0) + (e + 1075).toNat * 2 ^ 52 + (m - 2 ^ 52)) := by
  simp only [Nat.reducePow] at hb ⊢
  -- the sign, the biased exponent and the stored fraction
  obtain ⟨s, k, f, hs, hk, hf, rfl⟩ : ∃ s k f, s ≤ 1 ∧ k < 2048 ∧ f < 4503599627370496 ∧
      bits = s * 9223372036854775808 + k * 4503599627370496 + f :=
    ⟨bits / 9223372036854775808, bits / 4503599627370496 % 2048, bits % 4503599627370496,
      by omega, Nat.mod_lt _ (by norm_num), Nat.mod_lt _ (by norm_num), by omega⟩
  have hk' : (s * 9223372036854775808 + k * 4503599627370496 + f) / 4503599627370496 % 2048 = k := by
    omega
  have hf' : (s * 9223372036854775808 + k * 4503599627370496 + f) % 4503599627370496 = f := by omega
  have hs' : (9223372036854775808 ≤ (s * 9223372036854775808 + k * 4503599627370496 + f) %
      (2 * 9223372036854775808)) ↔ s = 1 := by omega
  have hexp : binary64.exponentBits = 11 := rfl
  unfold decode at h
  simp only [binary64_fractionBits, binary64_minQuantum, binary64_specialExponent,
    binary64_signBit, hexp, Nat.pow_eq, Nat.reducePow, hk', hf', hs'] at h
  split_ifs at h with h1 h2 h3
  all_goals simp only [Binary.finite.injEq] at h
  all_goals obtain ⟨rfl, rfl, rfl⟩ := h
  all_goals obtain rfl | rfl : s = 0 ∨ s = 1 := by omega
  all_goals clear hk' hf' hs' hb
  all_goals refine ⟨by omega, by omega, fun _ => by omega, fun _ => by omega, fun _ => ?_,
    fun _ => ⟨by omega, ?_⟩⟩
  all_goals simp only [decide_true, decide_false, zero_ne_one, if_true, if_false,
    Bool.false_eq_true]
  all_goals omega

/-- `v` rounds to nearest, ties to even, to the positive finite binary64 value `m * 2^e`: it lies
within half a unit in the last place of it, within a quarter below a power of two that is not at
the least exponent, and on an end only when `m` is even. -/
def RoundsTo (m : Nat) (e : Int) (v : ℚ) : Prop :=
  let below : ℚ := if m = 2 ^ 52 ∧ e ≠ -1074 then 1 / 4 else 1 / 2
  ((m - below) * 2 ^ e < v ∨ (m % 2 = 0 ∧ (m - below) * 2 ^ e = v)) ∧
    (v < (m + 1 / 2) * 2 ^ e ∨ (m % 2 = 0 ∧ v = (m + 1 / 2) * 2 ^ e))

theorem zpow_two_unique {v : ℚ} {a b : ℤ} (ha : 2 ^ a ≤ v) (ha' : v < 2 ^ (a + 1))
    (hb : 2 ^ b ≤ v) (hb' : v < 2 ^ (b + 1)) : a = b := by
  by_contra hne
  rcases lt_or_gt_of_ne hne with h | h
  · have : (2 : ℚ) ^ (a + 1) ≤ 2 ^ b := zpow_le_zpow_right₀ (by norm_num) (by omega)
    linarith
  · have : (2 : ℚ) ^ (b + 1) ≤ 2 ^ a := zpow_le_zpow_right₀ (by norm_num) (by omega)
    linarith

/-- A value that rounds to `m * 2^e` is within half a unit of it, a half only for an even `m`. -/
theorem RoundsTo.near {m : Nat} {e : Int} {v : ℚ} (hv : RoundsTo m e v) :
    |v - m * 2 ^ e| ≤ 2 ^ e / 2 ∧ (|v - m * 2 ^ e| = 2 ^ e / 2 → m % 2 = 0) := by
  obtain ⟨hlo, hhi⟩ := hv
  have h2 : (0 : ℚ) < 2 ^ e := by positivity
  have hbelow : ∀ below : ℚ, below = 1 / 4 ∨ below = 1 / 2 →
      ((m - below) * 2 ^ e < v ∨ (m % 2 = 0 ∧ (m - below) * 2 ^ e = v)) →
      |v - m * 2 ^ e| ≤ 2 ^ e / 2 ∧ (|v - m * 2 ^ e| = 2 ^ e / 2 → m % 2 = 0) := by
    intro below hb hlo
    have hlo' : (m - below) * 2 ^ e ≤ v := by rcases hlo with h | ⟨-, h⟩ <;> linarith
    have hhi' : v ≤ (m + 1 / 2) * 2 ^ e := by rcases hhi with h | ⟨-, h⟩ <;> linarith
    refine ⟨abs_le.2 ⟨by rcases hb with rfl | rfl <;> nlinarith, by nlinarith⟩, fun heq => ?_⟩
    rcases abs_eq (by positivity) |>.1 heq with h | h
    · rcases hhi with h' | ⟨hm, -⟩
      · nlinarith
      · exact hm
    · rcases hlo with h' | ⟨hm, -⟩
      · rcases hb with rfl | rfl <;> nlinarith
      · rcases hb with rfl | rfl
        · nlinarith
        · exact hm
  split_ifs at hlo with hc
  · exact hbelow _ (Or.inl rfl) hlo
  · exact hbelow _ (Or.inr rfl) hlo
/-- Below a power of two, a value that rounds to it may lie a quarter unit under it: at the
exponent one lower, it rounds to the even `2^53`. -/
theorem RoundsTo.near_below {e : Int} {v : ℚ} (hv : RoundsTo (2 ^ 52) e v) (he : e ≠ -1074)
    (hlt : v < 2 ^ 52 * 2 ^ e) :
    |v - ((2 ^ 53 : Nat) : ℚ) * 2 ^ (e - 1)| ≤ 2 ^ (e - 1) / 2 := by
  obtain ⟨hlo, -⟩ := hv
  simp only [he, ne_eq, not_false_eq_true, and_true, if_true] at hlo
  have hsplit : (2 : ℚ) ^ e = 2 ^ (e - 1) * 2 := by
    rw [← zpow_add_one₀ (by norm_num)]; congr 1; ring
  have h2 : (0 : ℚ) < 2 ^ (e - 1) := by positivity
  have hlo' : ((2 ^ 52 : Nat) - 1 / 4 : ℚ) * 2 ^ e ≤ v := by
    rcases hlo with h | ⟨-, h⟩ <;> linarith
  rw [hsplit] at hlo' hlt
  push_cast at hlo' hlt ⊢
  rw [abs_le]
  constructor <;> nlinarith

/-- Every rational that rounds to a finite nonzero value of binary64 is rounded by `roundBits`
to its bits. -/
theorem roundBits_of_roundsTo {bits : Nat} (hb : bits < 2 ^ 64) {neg : Bool} {m : Nat} {e : Int}
    (hd : binary64.decode bits = .finite neg m e) (hm : 0 < m) {M : Nat} {E : Int} (hM : 0 < M)
    (hv : RoundsTo m e (M * 2 ^ E)) : binary64.roundBits neg M E = bits := by
  obtain ⟨hm53, he, hsub, hnorm, hbits_sub, hbits_norm⟩ := decode_finite hb hd
  -- the value lies between the powers of two around `log2 M + E`
  have hlog : (2 : ℚ) ^ ((Nat.log2 M : Int) + E) ≤ M * 2 ^ E ∧
      (M : ℚ) * 2 ^ E < 2 ^ ((Nat.log2 M : Int) + E + 1) := by
    have h1 : 2 ^ Nat.log2 M ≤ M := Nat.log2_self_le hM.ne'
    have h2 : M < 2 ^ (Nat.log2 M + 1) := Nat.lt_log2_self
    have h2E : (0 : ℚ) < 2 ^ E := by positivity
    rw [zpow_add₀ (by norm_num), add_assoc, add_comm E 1, ← add_assoc, zpow_add₀ (by norm_num),
      zpow_natCast, ← Nat.cast_ofNat, ← Nat.cast_pow, ← Nat.cast_one, ← Nat.cast_add, zpow_natCast,
      ← Nat.cast_pow]
    exact ⟨mul_le_mul_of_nonneg_right (by exact_mod_cast h1) h2E.le,
      mul_lt_mul_of_pos_right (by exact_mod_cast h2) h2E⟩
  unfold roundBits
  simp only [binary64_fractionBits, binary64_minQuantum, binary64_precision,
    binary64_specialExponent, binary64_signBit, Nat.pow_eq, if_neg hM.ne', Nat.cast_ofNat]
  have h2e : (0 : ℚ) < 2 ^ e := by positivity
  -- the value is below `2^(53 + e)`, so its exponent is at most `e + 52`
  have hup : (M : ℚ) * 2 ^ E < 2 ^ (53 + e) := by
    have hhi : (M : ℚ) * 2 ^ E ≤ (m + 1 / 2) * 2 ^ e := by
      rcases hv.2 with h | ⟨-, h⟩ <;> linarith
    have hm' : (m : ℚ) + 1 / 2 < 2 ^ 53 := by
      have : (m : ℚ) + 1 ≤ 2 ^ 53 := by exact_mod_cast (show m + 1 ≤ 2 ^ 53 by omega)
      linarith
    rw [zpow_add₀ (by norm_num), zpow_ofNat]
    nlinarith
  have htop_lt : (Nat.log2 M : Int) + E < 53 + e := by
    by_contra hc
    have : (2 : ℚ) ^ (53 + e) ≤ 2 ^ ((Nat.log2 M : Int) + E) :=
      zpow_le_zpow_right₀ (by norm_num) (by omega)
    linarith [hlog.1]
  by_cases hB : m = 2 ^ 52 ∧ e ≠ -1074 ∧ (M : ℚ) * 2 ^ E < 2 ^ 52 * 2 ^ e
  · -- just below a power of two: the exponent is one lower and the significand carries
    obtain ⟨rfl, hne, hlt⟩ := hB
    have hlow : (2 : ℚ) ^ (51 + e) ≤ M * 2 ^ E := by
      obtain ⟨hlo, -⟩ := hv
      simp only [hne, ne_eq, not_false_eq_true, and_true, if_true] at hlo
      have hlo' : ((2 ^ 52 : Nat) - 1 / 4 : ℚ) * 2 ^ e ≤ M * 2 ^ E := by
        rcases hlo with h | ⟨-, h⟩ <;> linarith
      rw [zpow_add₀ (by norm_num), zpow_ofNat]
      push_cast at hlo'
      nlinarith
    have htop : (Nat.log2 M : Int) + E = 51 + e :=
      zpow_two_unique hlog.1 hlog.2 hlow (by
        rw [show (51 + e + 1 : Int) = 52 + e by ring, zpow_add₀ (by norm_num), zpow_ofNat]
        exact hlt)
    have hq : max ((Nat.log2 M : Int) + E - 52) (-1074) = e - 1 := by omega
    have hr := keep_eq (hv.near_below hne hlt) (fun _ => by norm_num)
    rw [hq, hr]
    obtain ⟨hlt', hbits⟩ := hbits_norm le_rfl
    simp only [if_true, Nat.reducePow, Nat.reduceDiv, Nat.lt_irrefl, if_false,
      show e - 1 + 1 = e by ring]
    rw [if_neg (by omega), hbits]
    norm_num [show e + 1074 + 1 = e + 1075 by ring]
  · -- otherwise the exponent is `e` and the significand is `m`
    have hq : max ((Nat.log2 M : Int) + E - 52) (-1074) = e := by
      rcases eq_or_ne e (-1074) with he' | he'
      · omega
      · have h52 : 2 ^ 52 ≤ m := hnorm he'
        have hlow : (2 : ℚ) ^ (52 + e) ≤ M * 2 ^ E := by
          rw [zpow_add₀ (by norm_num), zpow_ofNat]
          by_cases hm52 : m = 2 ^ 52
          · push Not at hB
            exact hB hm52 he'
          · have hm' : (2 : ℚ) ^ 52 + 1 ≤ m := by
              have : 2 ^ 52 + 1 ≤ m := by omega
              exact_mod_cast this
            have hlo : ((m : ℚ) - 1 / 2) * 2 ^ e ≤ M * 2 ^ E := by
              obtain ⟨hlo, -⟩ := hv
              simp only [hm52, false_and, if_false] at hlo
              rcases hlo with h | ⟨-, h⟩ <;> linarith
            nlinarith
        have : 52 + e ≤ (Nat.log2 M : Int) + E := by
          by_contra hc
          have : (2 : ℚ) ^ ((Nat.log2 M : Int) + E + 1) ≤ 2 ^ (52 + e) :=
            zpow_le_zpow_right₀ (by norm_num) (by omega)
          linarith [hlog.2]
        omega
    have hr := keep_eq hv.near.1 hv.near.2
    rw [hq, hr]
    simp only [show ¬ (m = 2 ^ 53) by omega, if_false]
    by_cases hm52 : m < 2 ^ 52
    · rw [if_pos hm52, hbits_sub hm52]
    · obtain ⟨hlt', hbits⟩ := hbits_norm (by omega)
      rw [if_neg hm52, hbits, if_neg (by omega)]
      congr 3
      omega
end MixedFem.BinaryFormat
