import MixedFem.Proofs.Float.Rounding
import MixedFem.Decimal.Scientific

/-!
# Reading a decimal value

* `pow_digits_bounds` : a positive number lies between the powers of ten of its digit count;
* `RoundsTo.sticky` : a value strictly inside a unit rounds as the middle of the unit does;
* `RoundsTo.bounds`, `count_bounds` : a value that rounds to a positive finite value takes
  neither the zero nor the infinity branch of `toBinaryBits`;
* `quotient_ge`, `quotient_value`, `roundBits_quotient` : the quotient by `5^k` of a negative
  exponent keeps 60 bits and, with its sticky bit, rounds as the exact value;
* `toBinaryBits_of_roundsTo` : every decimal that rounds to a positive finite value is read as
  its bits.
-/

namespace MixedFem.Decimal

open BinaryFormat

theorem pow_digits_bounds {d : Nat} (hd : 0 < d) :
    10 ^ ((Nat.toDigits 10 d).length - 1) ≤ d ∧ d < 10 ^ (Nat.toDigits 10 d).length := by
  have hpos := Nat.length_toDigits_pos (b := 10) (n := d)
  refine ⟨?_, (Nat.length_toDigits_le_iff (by norm_num) hpos).1 le_rfl⟩
  rcases Nat.lt_or_ge 1 (Nat.toDigits 10 d).length with h | h
  · by_contra hc
    push Not at hc
    have := (Nat.length_toDigits_le_iff (b := 10) (n := d) (by norm_num) (by omega)).2 hc
    omega
  · rw [show (Nat.toDigits 10 d).length - 1 = 0 by omega, pow_zero]
    exact hd

theorem between_of_sticky {g t : ℚ} (hg : 0 < g) {q : Nat} (ht0 : 0 < t) (ht1 : t < 1) {a : ℤ} :
    ((a * g < (q + t) * g ∨ a * g = (q + t) * g) → a * g < (q + 1 / 2) * g) ∧
      (((q + t) * g < a * g ∨ (q + t) * g = a * g) → (q + 1 / 2) * g < a * g) := by
  constructor
  · intro h
    have h' : (a : ℚ) ≤ q + t := by
      rcases h with h | h
      · exact le_of_lt ((mul_lt_mul_iff_left₀ hg).1 h)
      · exact le_of_eq ((mul_left_inj' hg.ne').1 h)
    have : a ≤ (q : ℤ) := by
      by_contra hc
      have : (q : ℚ) + 1 ≤ a := by exact_mod_cast (show (q : ℤ) + 1 ≤ a by omega)
      linarith
    have : (a : ℚ) ≤ q := by exact_mod_cast this
    exact (mul_lt_mul_iff_left₀ hg).2 (by linarith)
  · intro h
    have h' : (q : ℚ) + t ≤ a := by
      rcases h with h | h
      · exact le_of_lt ((mul_lt_mul_iff_left₀ hg).1 h)
      · exact le_of_eq ((mul_left_inj' hg.ne').1 h)
    have : (q : ℤ) + 1 ≤ a := by
      by_contra hc
      have : (a : ℚ) ≤ q := by exact_mod_cast (show a ≤ (q : ℤ) by omega)
      linarith
    have : (q : ℚ) + 1 ≤ a := by exact_mod_cast this
    exact (mul_lt_mul_iff_left₀ hg).2 (by linarith)

/-- A value strictly between two multiples of a unit that divides the ends of a rounding interval
rounds as the midpoint between them does. -/
theorem RoundsTo.sticky {m : Nat} {e : Int} {g t : ℚ} {q j : Nat} (hg : 2 ^ (e - 2) = 2 ^ j * g)
    (hg0 : 0 < g) (ht0 : 0 < t) (ht1 : t < 1) (hv : RoundsTo m e ((q + t) * g)) :
    RoundsTo m e ((q + 1 / 2) * g) := by
  have h2e : (2 : ℚ) ^ e = 4 * 2 ^ j * g := by
    rw [show e = e - 2 + 2 by ring, zpow_add₀ (by norm_num), hg]; norm_num; ring
  -- the ends of the interval are whole multiples of `g`
  have hquarter : ((m : ℚ) - 1 / 4) * 2 ^ e = ((4 * m - 1 : ℤ) * 2 ^ j : ℤ) * g := by
    rw [h2e]; push_cast; ring
  have hhalf : ((m : ℚ) - 1 / 2) * 2 ^ e = ((4 * m - 2 : ℤ) * 2 ^ j : ℤ) * g := by
    rw [h2e]; push_cast; ring
  have hup : ((m : ℚ) + 1 / 2) * 2 ^ e = ((4 * m + 2 : ℤ) * 2 ^ j : ℤ) * g := by
    rw [h2e]; push_cast; ring
  have hmid := fun a : ℤ => between_of_sticky (q := q) (a := a) hg0 ht0 ht1
  obtain ⟨hlo, hhi⟩ := hv
  refine ⟨?_, Or.inl ?_⟩
  · split_ifs at hlo ⊢
    · rw [hquarter] at hlo ⊢
      exact Or.inl ((hmid _).1 (hlo.imp id fun h => h.2))
    · rw [hhalf] at hlo ⊢
      exact Or.inl ((hmid _).1 (hlo.imp id fun h => h.2))
  · rw [hup] at hhi ⊢
    exact (hmid _).2 (hhi.imp id fun h => h.2)

theorem decode_exponent_le {bits : Nat} (hb : bits < 2 ^ 64) {neg : Bool} {m : Nat} {e : Int}
    (hd : binary64.decode bits = .finite neg m e) : e ≤ 971 := by
  obtain ⟨-, -, hsub, -, -, hbits_norm⟩ := decode_finite hb hd
  rcases Nat.lt_or_ge m (2 ^ 52) with h | h
  · have := hsub h; omega
  · have := (hbits_norm h).1; omega

theorem RoundsTo.bounds {bits : Nat} (hb : bits < 2 ^ 64) {neg : Bool} {m : Nat} {e : Int}
    (hd : binary64.decode bits = .finite neg m e) (hm : 0 < m) {v : ℚ} (hv : RoundsTo m e v) :
    (2 : ℚ) ^ (-1075 : ℤ) ≤ v ∧ v < 2 ^ (53 : ℤ) * 2 ^ e ∧ e ≤ 971 := by
  obtain ⟨hm53, he, -, -, -, -⟩ := decode_finite hb hd
  have he' : e ≤ 971 := decode_exponent_le hb hd
  obtain ⟨hnear, -⟩ := hv.near
  obtain ⟨hlo, hhi⟩ := abs_le.1 hnear
  have h2 : (2 : ℚ) ^ (-1074 : ℤ) ≤ 2 ^ e := zpow_le_zpow_right₀ (by norm_num) he
  have hm1 : (1 : ℚ) ≤ m := by exact_mod_cast hm
  have hm53' : (m : ℚ) + 1 ≤ 2 ^ 53 := by exact_mod_cast hm53
  refine ⟨?_, ?_, he'⟩
  · have h1075 : (2 : ℚ) ^ (-1075 : ℤ) = 2 ^ (-1074 : ℤ) / 2 := by
      rw [show (-1074 : ℤ) = -1075 + 1 by norm_num, zpow_add_one₀ (by norm_num)]; ring
    nlinarith
  · have : (0 : ℚ) < 2 ^ e := by positivity
    rw [show ((2 : ℚ) ^ (53 : ℤ)) = 2 ^ 53 by norm_num]
    nlinarith

/-- The value of a positive float lies below `2^1024`. -/
theorem RoundsTo.lt_two_pow {bits : Nat} (hb : bits < 2 ^ 64) {neg : Bool} {m : Nat} {e : Int}
    (hd : binary64.decode bits = .finite neg m e) (hm : 0 < m) {v : ℚ} (hv : RoundsTo m e v) :
    v < 2 ^ (1024 : ℤ) := by
  obtain ⟨-, hhi, he⟩ := RoundsTo.bounds hb hd hm hv
  calc v < 2 ^ (53 : ℤ) * 2 ^ e := hhi
    _ ≤ 2 ^ (53 : ℤ) * 2 ^ (971 : ℤ) := by gcongr; norm_num
    _ = 2 ^ (1024 : ℤ) := by rw [← zpow_add₀ (by norm_num)]; norm_num

theorem count_bounds {D : Nat} {X : Int} (hD : 0 < D) (hlo : (2 : ℚ) ^ (-1075 : ℤ) ≤ D * 10 ^ X)
    (hhi : (D : ℚ) * 10 ^ X < 2 ^ (1024 : ℤ)) :
    ¬ ((Nat.toDigits 10 D).length + X < -340) ∧ ¬ (320 < (Nat.toDigits 10 D).length + X) := by
  obtain ⟨hc1, hc⟩ := pow_digits_bounds hD
  set c := (Nat.toDigits 10 D).length
  have hc0 : 0 < c := Nat.length_toDigits_pos
  -- the value lies between the powers of ten `c - 1 + X` and `c + X`
  have hup : (D : ℚ) * 10 ^ X < 10 ^ ((c : ℤ) + X) := by
    rw [zpow_add₀ (by norm_num)]
    gcongr
    exact_mod_cast hc
  have hdown : (10 : ℚ) ^ ((c : ℤ) - 1 + X) ≤ D * 10 ^ X := by
    rw [zpow_add₀ (by norm_num)]
    gcongr
    rw [show (c : ℤ) - 1 = ((c - 1 : ℕ) : ℤ) by omega, zpow_natCast]
    exact_mod_cast hc1
  constructor
  · intro h
    have : (10 : ℚ) ^ ((c : ℤ) + X) ≤ 10 ^ (-341 : ℤ) := zpow_le_zpow_right₀ (by norm_num) (by omega)
    have h341 : (10 : ℚ) ^ (-341 : ℤ) < 2 ^ (-1075 : ℤ) := by
      rw [zpow_neg, zpow_neg, inv_lt_inv₀ (by positivity) (by positivity), zpow_ofNat, zpow_ofNat]
      exact_mod_cast (show (2 : ℕ) ^ 1075 < 10 ^ 341 by decide +kernel)
    linarith
  · intro h
    have : (10 : ℚ) ^ (320 : ℤ) ≤ 10 ^ ((c : ℤ) - 1 + X) := zpow_le_zpow_right₀ (by norm_num) (by omega)
    have h320 : (2 : ℚ) ^ (1024 : ℤ) < 10 ^ (320 : ℤ) := by
      rw [zpow_ofNat, zpow_ofNat]
      exact_mod_cast (show (2 : ℕ) ^ 1024 < 10 ^ 320 by decide +kernel)
    exact lt_irrefl _ (h320.trans_le (this.trans (hdown.trans hhi.le)))

/-- A decimal that rounds to a positive float has at most 320 digits before the point. -/
theorem count_add_exponent_le {bits : Nat} (hb : bits < 2 ^ 64) {neg : Bool} {m : Nat} {e : Int}
    (hd : binary64.decode bits = .finite neg m e) (hm : 0 < m) {D : Nat} {X : Int} (hD : 0 < D)
    (hv : RoundsTo m e (D * 10 ^ X)) : ((Nat.toDigits 10 D).length : Int) + X ≤ 320 := by
  obtain ⟨hlo, -, -⟩ := RoundsTo.bounds hb hd hm hv
  have := (count_bounds hD hlo (RoundsTo.lt_two_pow hb hd hm hv)).2
  omega

theorem quotient_ge {D k : Nat} (hD : 0 < D) :
    2 ^ 59 ≤ D * 2 ^ (60 + Nat.log2 (5 ^ k) - Nat.log2 D) / 5 ^ k := by
  have hden : 0 < 5 ^ k := Nat.pow_pos (by norm_num)
  have hL := Nat.lt_log2_self (n := 5 ^ k)
  have hDL := Nat.log2_self_le (Nat.ne_of_gt hD)
  rw [Nat.le_div_iff_mul_le hden]
  calc 2 ^ 59 * 5 ^ k ≤ 2 ^ 59 * 2 ^ (Nat.log2 (5 ^ k) + 1) := by gcongr
    _ ≤ 2 ^ Nat.log2 D * 2 ^ (60 + Nat.log2 (5 ^ k) - Nat.log2 D) := by
      rw [← pow_add, ← pow_add]; exact Nat.pow_le_pow_right (by norm_num) (by omega)
    _ ≤ D * 2 ^ (60 + Nat.log2 (5 ^ k) - Nat.log2 D) := by gcongr

theorem quotient_value (D k s : Nat) :
    (D : ℚ) * 10 ^ (-(k : ℤ)) =
      ((D * 2 ^ s / 5 ^ k : ℕ) + ((D * 2 ^ s % 5 ^ k : ℕ) : ℚ) / (5 ^ k : ℕ)) * 2 ^ (-(s : ℤ) - k) := by
  have hsplit : ((D * 2 ^ s / 5 ^ k : ℕ) : ℚ) + ((D * 2 ^ s % 5 ^ k : ℕ) : ℚ) / (5 ^ k : ℕ) =
      (D * 2 ^ s : ℕ) / (5 ^ k : ℕ) := by
    rw [eq_div_iff (by positivity), add_mul, div_mul_cancel₀ _ (by positivity)]
    exact_mod_cast (Nat.div_add_mod' (D * 2 ^ s) (5 ^ k))
  rw [hsplit, zpow_sub₀ (by norm_num), zpow_neg, zpow_neg, zpow_natCast, zpow_natCast, zpow_natCast]
  push_cast
  rw [show (10 : ℚ) ^ k = 5 ^ k * 2 ^ k by rw [← mul_pow]; norm_num]
  field_simp

/-- For a negative exponent the quotient by `5^k`, with a sticky bit for a nonzero remainder,
rounds as the exact value does: no tie lies strictly between two units of the quotient. -/
theorem roundBits_quotient {bits : Nat} (hb : bits < 2 ^ 64) {neg : Bool} {m : Nat} {e : Int}
    (hd : binary64.decode bits = .finite neg m e) (hm : 0 < m) {D k : Nat} (hD : 0 < D)
    (hv : RoundsTo m e (D * 10 ^ (-(k : ℤ)))) :
    binary64.roundBits neg
      (2 * (D * 2 ^ (60 + Nat.log2 (5 ^ k) - Nat.log2 D) / 5 ^ k) +
        if D * 2 ^ (60 + Nat.log2 (5 ^ k) - Nat.log2 D) % 5 ^ k = 0 then 0 else 1)
      (-((60 + Nat.log2 (5 ^ k) - Nat.log2 D : ℕ) : Int) - k - 1) = bits := by
  have hq := quotient_ge (k := k) hD
  generalize 60 + Nat.log2 (5 ^ k) - Nat.log2 D = s at hq ⊢
  have hval := quotient_value D k s
  have hr5 := Nat.mod_lt (D * 2 ^ s) (Nat.pow_pos (n := k) (show 0 < 5 by norm_num))
  generalize D * 2 ^ s / 5 ^ k = q at hq hval ⊢
  generalize D * 2 ^ s % 5 ^ k = r at hr5 hval ⊢
  rw [hval] at hv
  have hg0 : (0 : ℚ) < 2 ^ (-(s : ℤ) - k) := by positivity
  have hunit : (2 : ℚ) ^ (-(s : ℤ) - k) = 2 ^ (-(s : ℤ) - k - 1) * 2 := by
    rw [← zpow_add_one₀ (by norm_num)]; ring_nf
  have ht0 : (0 : ℚ) ≤ r / (5 ^ k : ℕ) := by positivity
  have ht1 : (r : ℚ) / (5 ^ k : ℕ) < 1 := by
    rw [div_lt_one (by positivity)]; exact_mod_cast hr5
  -- the unit is below `2^(e-6)`, as the quotient has 60 bits and the value is below `2^(53+e)`
  have hexp : -(s : ℤ) - k < e - 6 := by
    obtain ⟨-, hhi, -⟩ := RoundsTo.bounds hb hd hm hv
    have hq59 : (2 : ℚ) ^ 59 ≤ q := by exact_mod_cast hq
    have htop : (2 : ℚ) ^ (59 : ℤ) * 2 ^ (e - 6) = 2 ^ 53 * 2 ^ e := by
      rw [← zpow_add₀ (by norm_num), show (59 : ℤ) + (e - 6) = 53 + e by ring,
        zpow_add₀ (by norm_num), zpow_ofNat]
    have hlt : (2 : ℚ) ^ (59 : ℤ) * 2 ^ (-(s : ℤ) - k) < 2 ^ (59 : ℤ) * 2 ^ (e - 6) := by
      rw [htop, zpow_ofNat]
      rw [zpow_ofNat] at hhi
      nlinarith
    exact (zpow_lt_zpow_iff_right₀ (by norm_num)).1 (lt_of_mul_lt_mul_left hlt (by positivity))
  by_cases hr0 : r = 0
  · subst hr0
    simp only [if_true]
    apply roundBits_of_roundsTo hb hd hm (by omega)
    convert hv using 1
    rw [hunit]; push_cast; ring
  · simp only [hr0, if_false]
    apply roundBits_of_roundsTo hb hd hm (by omega)
    have hj : (2 : ℚ) ^ (e - 2) = 2 ^ (e - 2 + s + k).toNat * 2 ^ (-(s : ℤ) - k) := by
      rw [← zpow_natCast, ← zpow_add₀ (by norm_num)]; congr 1; omega
    have ht0' : (0 : ℚ) < r / (5 ^ k : ℕ) := by
      have : (0 : ℚ) < r := by exact_mod_cast Nat.pos_of_ne_zero hr0
      positivity
    convert RoundsTo.sticky hj hg0 ht0' ht1 hv using 1
    rw [hunit]; push_cast; ring

/-- Every decimal value that rounds to a positive finite binary64 value is read as its bits. -/
theorem toBinaryBits_of_roundsTo {bits : Nat} (hb : bits < 2 ^ 64) {neg : Bool} {m : Nat}
    {e : Int} (hd : binary64.decode bits = .finite neg m e) (hm : 0 < m) {D : Nat} {X : Int}
    (hD : 0 < D) (hv : RoundsTo m e (D * 10 ^ X)) :
    toBinaryBits .binary64 neg D X = bits := by
  obtain ⟨hlo, -, -⟩ := RoundsTo.bounds hb hd hm hv
  obtain ⟨hsmall, hlarge⟩ := count_bounds hD hlo (RoundsTo.lt_two_pow hb hd hm hv)
  unfold toBinaryBits
  simp only [Nat.pos_iff_ne_zero.1 hD, hsmall, hlarge, or_self, if_false, Nat.pow_eq]
  by_cases hX : 0 ≤ X
  · -- a nonnegative exponent: `10^X = 5^X * 2^X` exactly
    rw [if_pos hX]
    apply roundBits_of_roundsTo hb hd hm (Nat.mul_pos hD (Nat.pow_pos (by norm_num)))
    convert hv using 1
    obtain ⟨k, rfl⟩ := Int.eq_ofNat_of_zero_le hX
    simp only [Int.toNat_natCast, zpow_natCast]
    push_cast
    rw [mul_assoc, ← mul_pow]; norm_num
  · rw [if_neg hX]
    obtain ⟨k, hk⟩ := Int.exists_eq_neg_ofNat (le_of_lt (not_le.1 hX))
    subst hk
    simp only [neg_neg, Int.toNat_natCast]
    exact roundBits_quotient hb hd hm hD hv

end MixedFem.Decimal
