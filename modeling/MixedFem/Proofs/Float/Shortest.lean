import MixedFem.Proofs.Float.Reading
import MixedFem.Decimal.Shortest

/-!
# The shortest decimal reads back

* `lower_le_iff`, `le_upper_iff`, `Interval.range_spec` : the `dmin`, `dmax` of `range` bound
  exactly the decimals `d * 10^k` of the interval (`Interval.Contains`);
* `Interval.hits_of_wide` : an interval wider than `10^k` hits at `k`;
* `Interval.greatestHit_spec`, `Interval.best_spec` : the bisection keeps an exponent that hits,
  and `best` gives a positive decimal of the interval;
* `ten_pow_floor_lt` : the least exponent tried, `⌊0.30103 (e - 2)⌋ - 2`, hits;
* `roundingInterval`, `ofBinary_spec` : the shortest decimal of a positive binary64 value rounds
  to it.
-/

namespace MixedFem.Decimal

open BinaryFormat

theorem ceilDiv_eq {lo a : Nat} (ha : 0 < a) (hr : lo % a ≠ 0) : ceilDiv lo a = lo / a + 1 := by
  unfold ceilDiv
  have hsplit := Nat.div_add_mod lo a
  have hr' := Nat.mod_lt lo ha
  rw [show lo + a - 1 = (lo % a - 1) + a * (lo / a + 1) by
    generalize lo / a = q at hsplit
    generalize lo % a = r at hsplit hr hr'
    subst hsplit
    rw [Nat.mul_add, Nat.mul_one]; omega]
  rw [Nat.add_mul_div_left _ _ ha, Nat.div_eq_of_lt (by omega), Nat.zero_add]

theorem lower_le_iff {lo a d : Nat} (ha : 0 < a) (closed : Bool) :
    (if lo % a = 0 then (if closed then lo / a else lo / a + 1) else ceilDiv lo a) ≤ d ↔
      lo < d * a ∨ (closed = true ∧ lo = d * a) := by
  have hsplit := Nat.div_add_mod lo a
  have hr := Nat.mod_lt lo ha
  by_cases h0 : lo % a = 0
  · rw [if_pos h0]
    rw [h0, Nat.add_zero] at hsplit
    generalize lo / a = q at hsplit
    subst hsplit
    cases closed
    · simp only [Bool.false_eq_true, if_false, false_and, or_false]
      rw [Nat.mul_comm a q]
      exact ⟨fun h => Nat.mul_lt_mul_of_pos_right (by omega) ha,
        fun h => Nat.succ_le_of_lt (Nat.lt_of_mul_lt_mul_right h)⟩
    · simp only [if_true, true_and]
      rw [Nat.mul_comm a q, ← Nat.le_iff_lt_or_eq]
      exact (Nat.mul_le_mul_right_iff ha).symm
  · rw [if_neg h0, ceilDiv_eq ha h0]
    have hne : ∀ d, lo ≠ d * a := fun d h => h0 (by rw [h]; exact Nat.mul_mod_left d a)
    simp only [hne, and_false, or_false]
    generalize lo / a = q at hsplit
    generalize lo % a = r at hsplit hr h0
    subst hsplit
    constructor
    · intro h
      have : a * (q + 1) ≤ a * d := Nat.mul_le_mul_left a h
      rw [Nat.mul_comm d a]; rw [Nat.mul_add] at this; omega
    · intro h
      rw [Nat.mul_comm d a] at h
      have : a * q < a * d := by omega
      exact Nat.succ_le_of_lt (Nat.lt_of_mul_lt_mul_left this)

theorem le_upper_iff {hi a d : Nat} (ha : 0 < a) (hhi : 0 < hi) (closed : Bool) :
    d ≤ (if hi % a = 0 ∧ ¬ closed = true then hi / a - 1 else hi / a) ↔
      d * a < hi ∨ (closed = true ∧ d * a = hi) := by
  have hsplit := Nat.div_add_mod hi a
  have hr := Nat.mod_lt hi ha
  have hle : d ≤ hi / a ↔ d * a ≤ hi := Nat.le_div_iff_mul_le ha
  by_cases h0 : hi % a = 0
  · rw [h0, Nat.add_zero] at hsplit
    cases closed
    · simp only [h0, Bool.false_eq_true, not_false_eq_true, and_self, if_true, false_and, or_false]
      generalize hq : hi / a = q at hsplit hle
      subst hsplit
      rw [Nat.mul_comm a q]
      have hq0 : 0 < q := Nat.pos_of_mul_pos_left hhi
      constructor
      · intro h; exact Nat.mul_lt_mul_of_pos_right (by omega) ha
      · intro h; have := Nat.lt_of_mul_lt_mul_right h; omega
    · simp only [not_true_eq_false, and_false, if_false, true_and, hle]
      exact Nat.le_iff_lt_or_eq
  · have hne : ∀ d, d * a ≠ hi := fun d h => h0 (by rw [← h]; exact Nat.mul_mod_left d a)
    simp only [h0, false_and, if_false, hne, and_false, or_false, hle]
    exact ⟨fun h => lt_of_le_of_ne h (hne d), le_of_lt⟩

theorem log_ten_two_bounds : 2 ^ 100000 ≤ 10 ^ 30103 ∧ 10 ^ 30103 ≤ 10 * 2 ^ 100000 := by
  constructor <;> decide +kernel

theorem ten_pow_le_of_log {P Q : ℕ} (hP : 0 < P) (hQ : 10 ^ Q ≤ 10 * 2 ^ P) {l n : ℕ}
    (hl : P * l ≤ Q * n) (hn : n ≤ 2 * P) : 10 ^ l ≤ 10 ^ 2 * 2 ^ n := by
  rw [← Nat.pow_le_pow_iff_left hP.ne']
  calc (10 ^ l) ^ P = 10 ^ (P * l) := by rw [← pow_mul, mul_comm]
    _ ≤ 10 ^ (Q * n) := Nat.pow_le_pow_right (by norm_num) hl
    _ = (10 ^ Q) ^ n := by rw [pow_mul]
    _ ≤ (10 * 2 ^ P) ^ n := Nat.pow_le_pow_left hQ n
    _ = 10 ^ n * (2 ^ n) ^ P := by rw [mul_pow, ← pow_mul, ← pow_mul, mul_comm P]
    _ ≤ 10 ^ (2 * P) * (2 ^ n) ^ P := Nat.mul_le_mul_right _ (Nat.pow_le_pow_right (by norm_num) hn)
    _ = (10 ^ 2 * 2 ^ n) ^ P := by rw [mul_pow, pow_mul]

theorem two_pow_le_of_log {P Q : ℕ} (hP : 0 < P) (hQ : 2 ^ P ≤ 10 ^ Q) {u M : ℕ}
    (hM : Q * u ≤ P * M) : 2 ^ u ≤ 10 ^ M := by
  rw [← Nat.pow_le_pow_iff_left hP.ne']
  calc (2 ^ u) ^ P = (2 ^ P) ^ u := by rw [← pow_mul, ← pow_mul, mul_comm]
    _ ≤ (10 ^ Q) ^ u := Nat.pow_le_pow_left hQ u
    _ = 10 ^ (Q * u) := by rw [← pow_mul]
    _ ≤ 10 ^ (P * M) := Nat.pow_le_pow_right (by norm_num) hM
    _ = (10 ^ M) ^ P := by rw [← pow_mul, mul_comm]

/-- `10^low` for `low = ⌊0.30103 t⌋ - 2` is below `3 * 2^t`: `0.30103` exceeds `log₁₀ 2` by
less than `10^-5`, which the two spare digits absorb. -/
theorem ten_pow_floor_lt (t : Int) (ht : t ≤ 200000) :
    (10 : ℚ) ^ ((t * 30103).fdiv 100000 - 2) < 3 * 2 ^ t := by
  rw [Int.fdiv_eq_ediv_of_nonneg _ (by norm_num)]
  rcases le_or_gt 0 t with h0 | h0
  · obtain ⟨n, rfl⟩ := Int.eq_ofNat_of_zero_le h0
    obtain ⟨l, hl⟩ : ∃ l : ℕ, (n * 30103 : ℤ) / 100000 = l :=
      ⟨((n * 30103 : ℤ) / 100000).toNat, by omega⟩
    have hpow := ten_pow_le_of_log (by norm_num) log_ten_two_bounds.2 (l := l) (n := n)
      (by omega) (by omega)
    have hpow' : (10 : ℚ) ^ l ≤ 10 ^ 2 * 2 ^ n := by exact_mod_cast hpow
    rw [hl, zpow_sub₀ (by norm_num), zpow_natCast, zpow_natCast]
    have : (0 : ℚ) < 2 ^ n := by positivity
    rw [div_lt_iff₀ (by norm_num)]
    nlinarith
  · obtain ⟨u, rfl⟩ : ∃ u : ℕ, t = -(u : ℤ) := ⟨(-t).toNat, by omega⟩
    obtain ⟨M, hM⟩ : ∃ M : ℕ, (-(u : ℤ) * 30103) / 100000 = -(M : ℤ) :=
      ⟨(-((-(u : ℤ) * 30103) / 100000)).toNat, by omega⟩
    have hpow := two_pow_le_of_log (by norm_num) log_ten_two_bounds.1 (u := u) (M := M) (by omega)
    have hpow' : (2 : ℚ) ^ u ≤ 10 ^ M := by exact_mod_cast hpow
    rw [hM, show -(M : ℤ) - 2 = -((M + 2 : ℕ) : ℤ) by push_cast; ring, zpow_neg, zpow_neg,
      zpow_natCast, zpow_natCast, pow_add]
    have : (0 : ℚ) < 2 ^ u := by positivity
    rw [← div_eq_mul_inv, lt_div_iff₀ this, inv_mul_lt_iff₀ (by positivity)]
    nlinarith

namespace Interval

/-- `v` lies in the interval: strictly inside, or on an end of a closed one. -/
def Contains (i : Interval) (v : ℚ) : Prop :=
  (i.low * (i.num / i.den : ℚ) < v ∨ (i.closed = true ∧ i.low * (i.num / i.den : ℚ) = v)) ∧
    (v < i.high * (i.num / i.den : ℚ) ∨ (i.closed = true ∧ v = i.high * (i.num / i.den : ℚ)))

theorem zpow_mul_pow_toNat {b : ℚ} (hb : b ≠ 0) (k : Int) : b ^ k * b ^ (-k).toNat = b ^ k.toNat := by
  rw [← zpow_natCast, ← zpow_natCast, ← zpow_add₀ hb]; congr 1; omega

/-- Compared at the scale `den * 10^(-k)`, a decimal `d * 10^k` and an end `x * num / den` are
the naturals of `range`. -/
theorem scaled {i : Interval} (hden : 0 < i.den) (k : Int) (d x : Nat) :
    (d : ℚ) * 10 ^ k * (i.den * 10 ^ (-k).toNat) = (d * (i.den * 10 ^ k.toNat) : ℕ) ∧
      x * (i.num / i.den : ℚ) * (i.den * 10 ^ (-k).toNat) = (x * (i.num * 10 ^ (-k).toNat) : ℕ) := by
  have hden' : (i.den : ℚ) ≠ 0 := by exact_mod_cast hden.ne'
  constructor
  · push_cast
    rw [← zpow_mul_pow_toNat (by norm_num) k]; ring
  · push_cast
    field_simp

theorem compare_iff {c p q : ℚ} {P Q : ℕ} (hc : 0 < c) (hp : p * c = P) (hq : q * c = Q) :
    (p < q ↔ P < Q) ∧ (p = q ↔ P = Q) := by
  constructor
  · rw [← mul_lt_mul_iff_left₀ hc, hp, hq, Nat.cast_lt]
  · rw [← mul_left_inj' hc.ne', hp, hq, Nat.cast_inj]

theorem range_fst_le_iff {i : Interval} (hden : 0 < i.den) (k : Int) (d : Nat) :
    (i.range k).1 ≤ d ↔ i.low * (i.num * 10 ^ (-k).toNat) < d * (i.den * 10 ^ k.toNat) ∨
      (i.closed = true ∧ i.low * (i.num * 10 ^ (-k).toNat) = d * (i.den * 10 ^ k.toNat)) := by
  unfold range
  simp only [Nat.pow_eq]
  exact lower_le_iff (Nat.mul_pos hden (Nat.pow_pos (by norm_num))) _

theorem le_range_snd_iff {i : Interval} (hden : 0 < i.den) (hnum : 0 < i.num) (hhigh : 0 < i.high)
    (k : Int) (d : Nat) :
    d ≤ (i.range k).2 ↔ d * (i.den * 10 ^ k.toNat) < i.high * (i.num * 10 ^ (-k).toNat) ∨
      (i.closed = true ∧ d * (i.den * 10 ^ k.toNat) = i.high * (i.num * 10 ^ (-k).toNat)) := by
  unfold range
  simp only [Nat.pow_eq]
  exact le_upper_iff (Nat.mul_pos hden (Nat.pow_pos (by norm_num)))
    (Nat.mul_pos hhigh (Nat.mul_pos hnum (Nat.pow_pos (by norm_num)))) _

theorem scale_pos {i : Interval} (hden : 0 < i.den) (k : Int) :
    (0 : ℚ) < i.den * 10 ^ (-k).toNat := by
  have : (0 : ℚ) < i.den := by exact_mod_cast hden
  positivity

theorem range_spec {i : Interval} (hden : 0 < i.den) (hnum : 0 < i.num) (hhigh : 0 < i.high)
    (k : Int) (d : Nat) :
    (i.range k).1 ≤ d ∧ d ≤ (i.range k).2 ↔ i.Contains (d * 10 ^ k) := by
  obtain ⟨hdv, hlow⟩ := scaled hden k d i.low
  obtain ⟨-, hhigh'⟩ := scaled hden k d i.high
  obtain ⟨hlt₁, heq₁⟩ := compare_iff (scale_pos hden k) hlow hdv
  obtain ⟨hlt₂, heq₂⟩ := compare_iff (scale_pos hden k) hdv hhigh'
  unfold Contains
  rw [range_fst_le_iff hden, le_range_snd_iff hden hnum hhigh, hlt₁, heq₁, hlt₂, heq₂]

theorem hits_iff (i : Interval) (k : Int) :
    i.hits k = true ↔ 0 < (i.range k).1 ∧ (i.range k).1 ≤ (i.range k).2 := by
  unfold hits
  simp only [Bool.and_eq_true, decide_eq_true_eq]

theorem nearest_mem (tie : Tie) (i : Interval) (k : Int) {dmin dmax : Nat} (h : dmin ≤ dmax) :
    dmin ≤ i.nearest tie k dmin dmax ∧ i.nearest tie k dmin dmax ≤ dmax := by
  unfold nearest
  dsimp only
  omega

theorem nearest_contains (tie : Tie) {i : Interval} (hden : 0 < i.den) (hnum : 0 < i.num)
    (hhigh : 0 < i.high) {k : Int} (hk : i.hits k = true) :
    0 < i.nearest tie k (i.range k).1 (i.range k).2 ∧
      i.Contains (i.nearest tie k (i.range k).1 (i.range k).2 * 10 ^ k) := by
  obtain ⟨hpos, hle⟩ := (hits_iff i k).1 hk
  have hmem := nearest_mem tie i k hle
  exact ⟨by omega, (range_spec hden hnum hhigh k _).1 hmem⟩

/-- An interval wider than `10^k` holds a decimal `d * 10^k` strictly inside it. -/
theorem hits_of_wide {i : Interval} (hden : 0 < i.den) (hnum : 0 < i.num) (hlow : 0 < i.low)
    (hhigh : 0 < i.high) {k : Int} (hw : (10 : ℚ) ^ k < (i.high - i.low : ℚ) * (i.num / i.den)) :
    i.hits k = true := by
  rw [hits_iff]
  have hfst := range_fst_le_iff hden k
  have hsnd := le_range_snd_iff hden hnum hhigh k
  obtain ⟨hone, -⟩ := scaled hden k 1 0
  obtain ⟨-, hlo⟩ := scaled hden k 1 i.low
  obtain ⟨-, hhi⟩ := scaled hden k 1 i.high
  have ha : 0 < i.den * 10 ^ k.toNat := Nat.mul_pos hden (Nat.pow_pos (by norm_num))
  generalize i.den * 10 ^ k.toNat = a at hone hfst hsnd ha
  generalize hb : i.num * 10 ^ (-k).toNat = b at hlo hhi hfst hsnd
  have hb0 : 0 < b := by rw [← hb]; exact Nat.mul_pos hnum (Nat.pow_pos (by norm_num))
  -- the gap between the ends is wider than one step `a`
  have hgap : i.low * b + a < i.high * b := by
    have h := (mul_lt_mul_iff_left₀ (scale_pos hden k)).2 hw
    rw [Nat.cast_one, one_mul] at hone
    rw [hone, sub_mul, sub_mul, hlo, hhi] at h
    have h' : i.low * b + 1 * a < i.high * b := by exact_mod_cast (lt_sub_iff_add_lt'.1 h)
    omega
  -- the multiple of `a` just above the lower end lies inside
  have hsplit := Nat.div_add_mod (i.low * b) a
  have hr := Nat.mod_lt (i.low * b) ha
  have hlow_pos : 0 < i.low * b := Nat.mul_pos hlow hb0
  generalize i.low * b = lo at hfst hsplit hr hlow_pos hgap
  generalize i.high * b = hi at hsnd hgap
  generalize lo / a = q at hsplit
  generalize lo % a = r at hsplit hr
  subst hsplit
  have hin : (q + 1) * a ≤ a * q + r + a := by rw [Nat.add_mul, Nat.mul_comm q]; omega
  have habove : a * q + r < (q + 1) * a := by rw [Nat.add_mul, Nat.mul_comm q]; omega
  refine ⟨Nat.pos_of_ne_zero fun h0 => ?_, le_trans ((hfst (q + 1)).2 (Or.inl habove))
    ((hsnd (q + 1)).2 (Or.inl (by omega)))⟩
  have := (hfst 0).1 (by omega)
  simp only [Nat.zero_mul] at this
  omega

theorem greatestHit_spec (i : Interval) (fuel : Nat) {lo : Int} (hi : Int) (hlo : i.hits lo = true) :
    lo ≤ i.greatestHit fuel lo hi ∧ i.hits (i.greatestHit fuel lo hi) = true := by
  induction fuel generalizing lo hi with
  | zero => exact ⟨le_rfl, hlo⟩
  | succ fuel ih =>
    unfold greatestHit
    dsimp only
    split_ifs with hstop hmid
    · exact ⟨le_rfl, hlo⟩
    · obtain ⟨hle, hhit⟩ := ih hi hmid
      refine ⟨le_trans ?_ hle, hhit⟩
      rw [Int.fdiv_eq_ediv_of_nonneg _ (by norm_num)]
      omega
    · exact ih _ hlo

theorem search_of_hits (tie : Tie) (i : Interval) (fuel : Nat) {k : Int} (hk : i.hits k = true) :
    i.search tie (fuel + 1) k = ⟨i.nearest tie k (i.range k).1 (i.range k).2, k⟩ := by
  obtain ⟨hpos, hle⟩ := (hits_iff i k).1 hk
  unfold search
  simp only [hpos, hle, and_self, if_true]

/-- When the least exponent hits, `best` gives a positive decimal of the interval at an exponent
from it on. -/
theorem best_spec (tie : Tie) {i : Interval} (hden : 0 < i.den) (hnum : 0 < i.num)
    (hhigh : 0 < i.high) {top low : Int} (hlow : i.hits low = true) (hle : low ≤ top) :
    low ≤ (i.best tie top low).exponent ∧ 0 < (i.best tie top low).digits ∧
      i.Contains ((i.best tie top low).digits * 10 ^ (i.best tie top low).exponent) := by
  unfold best
  by_cases htop : i.hits top = true
  · simp only [htop, Bool.not_true, Bool.false_and, if_false, Bool.false_eq_true]
    rw [search_of_hits tie i 59 htop]
    exact ⟨hle, nearest_contains tie hden hnum hhigh htop⟩
  · simp only [htop, hlow, Bool.not_false, Bool.and_self, if_true]
    obtain ⟨hge, hk⟩ := greatestHit_spec i 64 top hlow
    exact ⟨hge, nearest_contains tie hden hnum hhigh hk⟩

end Interval

theorem two_zpow_div (e : Int) :
    ((2 ^ (e - 2).toNat : ℕ) / (2 ^ (2 - e).toNat : ℕ) : ℚ) = 2 ^ (e - 2) := by
  rw [div_eq_iff (by positivity)]
  push_cast
  rw [show 2 - e = -(e - 2) by ring, Interval.zpow_mul_pow_toNat (by norm_num)]

/-- The rounding interval that `shortest` searches for the binary64 value `m * 2^e`, in units
of `2^(e-2)`. -/
def roundingInterval (m : Nat) (e : Int) : Interval :=
  { low := 4 * m - (if m = 2 ^ 52 ∧ e ≠ -1074 then 1 else 2), value := 4 * m, high := 4 * m + 2,
    closed := decide (m % 2 = 0), num := 2 ^ (e - 2).toNat, den := 2 ^ (2 - e).toNat }

theorem ofBinary_eq (tie : Tie) (m : Nat) (e : Int) :
    ofBinary tie binary64 m e = (roundingInterval m e).best tie
      ((((Nat.log2 (4 * m + 2) : Int) + 1 + (e - 2)) * 30103).fdiv 100000 + 2)
      (((e - 2) * 30103).fdiv 100000 - 2) := by
  unfold ofBinary shortest roundingInterval
  simp only [binary64_precision, binary64_minQuantum, Nat.pow_eq, beq_iff_eq, ne_eq]

theorem roundingInterval_contains {m : Nat} {e : Int} (hm : 0 < m) (v : ℚ) :
    (roundingInterval m e).Contains v ↔ RoundsTo m e v := by
  have hu : ((2 ^ (e - 2).toNat : ℕ) / (2 ^ (2 - e).toNat : ℕ) : ℚ) = 2 ^ (e - 2) := two_zpow_div e
  have h2e : (2 : ℚ) ^ e = 4 * 2 ^ (e - 2) := by
    rw [show e = e - 2 + 2 by ring, zpow_add₀ (by norm_num)]; norm_num; ring
  unfold Interval.Contains RoundsTo roundingInterval
  simp only [decide_eq_true_eq]
  rw [hu, h2e]
  have hhigh : (((4 * m + 2 : ℕ) : ℚ)) * 2 ^ (e - 2) = (m + 1 / 2) * (4 * 2 ^ (e - 2)) := by
    push_cast; ring
  rw [hhigh]
  split_ifs with hc
  · have hlow : (((4 * m - 1 : ℕ) : ℚ)) * 2 ^ (e - 2) = (m - 1 / 4) * (4 * 2 ^ (e - 2)) := by
      rw [Nat.cast_sub (by omega)]; push_cast; ring
    rw [hlow]
  · have hlow : (((4 * m - 2 : ℕ) : ℚ)) * 2 ^ (e - 2) = (m - 1 / 2) * (4 * 2 ^ (e - 2)) := by
      rw [Nat.cast_sub (by omega)]; push_cast; ring
    rw [hlow]

/-- The shortest decimal of a positive binary64 value `m * 2^e` is a positive decimal that rounds
to it, with an exponent from `-326` on. -/
theorem ofBinary_spec (tie : Tie) {m : Nat} {e : Int} (hm : 0 < m) (he : -1074 ≤ e)
    (he' : e ≤ 971) :
    -326 ≤ (ofBinary tie binary64 m e).exponent ∧ 0 < (ofBinary tie binary64 m e).digits ∧
      RoundsTo m e ((ofBinary tie binary64 m e).digits * 10 ^ (ofBinary tie binary64 m e).exponent) := by
  have hden : 0 < (roundingInterval m e).den := Nat.pow_pos (by norm_num)
  have hnum : 0 < (roundingInterval m e).num := Nat.pow_pos (by norm_num)
  have hhigh : 0 < (roundingInterval m e).high := by show 0 < 4 * m + 2; omega
  have hlow : 0 < (roundingInterval m e).low := by
    show 0 < 4 * m - (if m = 2 ^ 52 ∧ e ≠ -1074 then 1 else 2)
    split_ifs <;> omega
  -- the interval is at least `3 * 2^(e-2)` wide, more than `10^low`
  have hwide : (10 : ℚ) ^ (((e - 2) * 30103).fdiv 100000 - 2) <
      ((roundingInterval m e).high - (roundingInterval m e).low : ℚ) *
        ((roundingInterval m e).num / (roundingInterval m e).den) := by
    have h3 : (3 : ℚ) ≤ (roundingInterval m e).high - (roundingInterval m e).low := by
      show (3 : ℚ) ≤ ((4 * m + 2 : ℕ) : ℚ) - ((4 * m - (if m = 2 ^ 52 ∧ e ≠ -1074 then 1 else 2) : ℕ) : ℚ)
      split_ifs <;> (rw [Nat.cast_sub (by omega)]; push_cast; linarith)
    have hu : ((roundingInterval m e).num / (roundingInterval m e).den : ℚ) = 2 ^ (e - 2) :=
      two_zpow_div e
    rw [hu]
    calc (10 : ℚ) ^ (((e - 2) * 30103).fdiv 100000 - 2) < 3 * 2 ^ (e - 2) :=
          ten_pow_floor_lt (e - 2) (by omega)
      _ ≤ _ := by gcongr
  have hle : ((e - 2) * 30103).fdiv 100000 - 2 ≤
      (((Nat.log2 (4 * m + 2) : Int) + 1 + (e - 2)) * 30103).fdiv 100000 + 2 := by
    rw [Int.fdiv_eq_ediv_of_nonneg _ (by norm_num), Int.fdiv_eq_ediv_of_nonneg _ (by norm_num)]
    omega
  obtain ⟨hk, hd, hc⟩ := Interval.best_spec tie hden hnum hhigh
    (Interval.hits_of_wide hden hnum hlow hhigh hwide) hle
  rw [ofBinary_eq]
  refine ⟨le_trans ?_ hk, hd, (roundingInterval_contains hm _).1 hc⟩
  rw [Int.fdiv_eq_ediv_of_nonneg _ (by norm_num)]
  omega

end MixedFem.Decimal
