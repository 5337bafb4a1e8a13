import ApiContract.Binary64
import Mathlib.Algebra.Order.Field.Basic
import Mathlib.Data.Int.Log
import Mathlib.Data.Rat.Floor
import Mathlib.Tactic.FieldSimp
import Mathlib.Tactic.NormNum
import Mathlib.Tactic.Ring

/-!
Rounding to doubles. What a quotient is rounded to is a double that depends on its value alone, and
the value of a double is rounded to that double; so a decimal is read as the same double wherever
its point stands.
-/

namespace ApiContract.Binary64

/-! ## Quotients -/

section Quotients

variable {num den : Nat}

theorem scaled_pos (hden : 0 < den) (e : Int) : 0 < (scaled num den e).2 := by
  unfold scaled
  split
  · exact Nat.mul_pos hden (Nat.pow_pos (by decide))
  · exact hden

/-- Scaling divides the quotient by a power of two. -/
theorem scaled_ratio (num den : Nat) (e : Int) :
    ((scaled num den e).1 : ℚ) / (scaled num den e).2 = num / den / 2 ^ e := by
  unfold scaled
  split
  · next he =>
    obtain ⟨k, rfl⟩ := Int.eq_ofNat_of_zero_le he
    have hpow : ((Nat.pow 2 (k : Int).toNat : Nat) : ℚ) = 2 ^ (k : Int) := by
      rw [Int.toNat_natCast, zpow_natCast]
      exact Nat.cast_pow 2 k
    rw [Nat.cast_mul, hpow, div_div]
  · next he =>
    obtain ⟨k, hk⟩ := Int.eq_ofNat_of_zero_le (show 0 ≤ -e by omega)
    have hpow : ((Nat.pow 2 (-e).toNat : Nat) : ℚ) = (2 ^ e)⁻¹ := by
      rw [hk, ← zpow_neg, hk, Int.toNat_natCast, zpow_natCast]
      exact Nat.cast_pow 2 k
    change ((num * Nat.pow 2 (-e).toNat : Nat) : ℚ) / den = num / den / 2 ^ e
    rw [Nat.cast_mul, hpow]
    ring

theorem scaled_lt_iff (hden : 0 < den) (e : Int) :
    (scaled num den e).1 < (scaled num den e).2 ↔ (num : ℚ) / den < 2 ^ e := by
  have hpos : (0 : ℚ) < (scaled num den e).2 := Nat.cast_pos.mpr (scaled_pos hden e)
  have hpow : (0 : ℚ) < 2 ^ e := zpow_pos (by norm_num) e
  rw [← Nat.cast_lt (α := ℚ), ← div_lt_one hpos, scaled_ratio, div_lt_one hpow]

/-- A number is between two powers of two. -/
theorem log2_bounds {n : Nat} (hn : 0 < n) :
    (2 : ℚ) ^ (n.log2 : Int) ≤ n ∧ (n : ℚ) < 2 ^ ((n.log2 : Int) + 1) := by
  constructor
  · rw [zpow_natCast]
    exact_mod_cast Nat.log2_self_le hn.ne'
  · rw [← Nat.cast_succ, zpow_natCast]
    exact_mod_cast Nat.lt_log2_self

/-- The exponent that is found is the logarithm of the quotient. -/
theorem binaryExponent_eq (hnum : 0 < num) (hden : 0 < den) :
    binaryExponent num den = Int.log 2 ((num : ℚ) / den) := by
  obtain ⟨hnumLow, hnumHigh⟩ := log2_bounds hnum
  obtain ⟨hdenLow, hdenHigh⟩ := log2_bounds hden
  have hd : (0 : ℚ) < den := Nat.cast_pos.mpr hden
  have hq : (0 : ℚ) < num / den := div_pos (Nat.cast_pos.mpr hnum) hd
  have hpos : ∀ k : Int, (0 : ℚ) < 2 ^ k := zpow_pos (by norm_num)
  have hlow : ((2 : ℕ) : ℚ) ^ ((num.log2 : Int) - den.log2 - 1) ≤ num / den := by
    rw [Nat.cast_ofNat, sub_sub, zpow_sub₀ (by norm_num)]
    exact div_le_div₀ (Nat.cast_nonneg _) hnumLow hd hdenHigh.le
  have hhigh : (num : ℚ) / den < ((2 : ℕ) : ℚ) ^ ((num.log2 : Int) - den.log2 + 1) := by
    rw [Nat.cast_ofNat, sub_add_eq_add_sub, zpow_sub₀ (by norm_num)]
    exact div_lt_div₀ hnumHigh hdenLow (hpos _).le (hpos _)
  have hge := (Int.zpow_le_iff_le_log (by decide) hq).mp hlow
  have hlt := (Int.lt_zpow_iff_log_lt (by decide) hq).mp hhigh
  have hcut := (@scaled_lt_iff num den hden ((num.log2 : Int) - den.log2)).trans
    (Int.lt_zpow_iff_log_lt (b := 2) (by decide) hq)
  unfold binaryExponent
  dsimp only
  split
  · next hbelow =>
    have := hcut.mp hbelow
    omega
  · next hbelow =>
    have := mt hcut.mpr hbelow
    omega

/-- Doubling both sides of a quotient, or taking them any other number of times, is no change. -/
theorem binaryExponent_mul {k : Nat} (hnum : 0 < num) (hden : 0 < den) (hk : 0 < k) :
    binaryExponent (num * k) (den * k) = binaryExponent num den := by
  rw [binaryExponent_eq hnum hden, binaryExponent_eq (Nat.mul_pos hnum hk) (Nat.mul_pos hden hk),
    Nat.cast_mul, Nat.cast_mul, mul_div_mul_right _ _ (Nat.cast_ne_zero.mpr hk.ne')]

theorem scaled_mul (num den k : Nat) (e : Int) :
    scaled (num * k) (den * k) e = ((scaled num den e).1 * k, (scaled num den e).2 * k) := by
  unfold scaled
  split
  · rw [Nat.mul_right_comm]
  · rw [Nat.mul_right_comm]

theorem divNearest_mul {k : Nat} (hk : 0 < k) (n d : Nat) :
    divNearest (n * k) (d * k) = divNearest n d := by
  unfold divNearest
  dsimp only
  have hlt : d * k < 2 * (n % d * k) ↔ d < 2 * (n % d) := by
    rw [← Nat.mul_assoc]
    exact Nat.mul_lt_mul_right hk
  have heq : d * k = 2 * (n % d * k) ↔ d = 2 * (n % d) := by
    rw [← Nat.mul_assoc]
    exact Nat.mul_left_inj hk.ne'
  rw [Nat.mul_div_mul_right n d hk, Nat.mul_mod_mul_right]
  simp only [hlt, heq]

theorem ofRatio_mul {k : Nat} (hk : 0 < k) (negative : Bool) (num den : Nat) :
    ofRatio negative (num * k) (den * k) = ofRatio negative num den := by
  have hzero : (num * k = 0 ∨ den * k = 0) ↔ (num = 0 ∨ den = 0) := by
    simp [hk.ne']
  unfold ofRatio
  by_cases h : num = 0 ∨ den = 0
  · rw [if_pos h, if_pos (hzero.mpr h)]
  · rw [if_neg h, if_neg (mt hzero.mp h)]
    rw [not_or] at h
    simp only [binaryExponent_mul (Nat.pos_of_ne_zero h.1) (Nat.pos_of_ne_zero h.2) hk, scaled_mul,
      divNearest_mul hk]

/-- Equal quotients are rounded to the same double. -/
theorem ofRatio_congr {num' den' : Nat} (hden : 0 < den) (hden' : 0 < den')
    (h : num * den' = num' * den) (negative : Bool) :
    ofRatio negative num den = ofRatio negative num' den' := by
  rw [← ofRatio_mul hden' negative num den, ← ofRatio_mul hden negative num' den', h,
    Nat.mul_comm den den']

end Quotients

/-! ## Doubles -/

/-- What a double is made of: the mantissa fills its places, unless the exponent is the least. -/
def Canonical (m : Nat) (e : Int) : Prop :=
  (m < Nat.pow 2 53 ∧ e = minExponent) ∨
    (Nat.pow 2 52 ≤ m ∧ m < Nat.pow 2 53 ∧ minExponent ≤ e ∧ e ≤ maxExponent)

/-- A number that a double holds, and no other way to write one. -/
def IsDouble : Binary64 → Prop
  | .finite _ m e => Canonical m e
  | _ => True

instance (m : Nat) (e : Int) : Decidable (Canonical m e) := inferInstanceAs (Decidable (_ ∨ _))

instance : ∀ x : Binary64, Decidable x.IsDouble
  | .finite _ m e => inferInstanceAs (Decidable (Canonical m e))
  | .nan => isTrue trivial
  | .infinite _ => isTrue trivial

section Rounded

variable {num den : Nat}

theorem divNearest_bounds {n d k l : Nat} (hd : 0 < d) (hlow : k * d ≤ n) (hhigh : n < l * d) :
    k ≤ divNearest n d ∧ divNearest n d ≤ l := by
  have hk : k ≤ n / d := (Nat.le_div_iff_mul_le hd).mpr hlow
  have hl : n / d < l := (Nat.div_lt_iff_lt_mul hd).mpr hhigh
  unfold divNearest
  dsimp only
  split
  · omega
  · omega

/-- Scaled by the exponent that is found, a quotient has 53 places before the point, or fewer at the
least exponent. -/
theorem scaled_bounds (hnum : 0 < num) (hden : 0 < den) {e : Int}
    (he : e = max minExponent (binaryExponent num den - 52)) :
    (scaled num den e).1 < 2 ^ 53 * (scaled num den e).2 ∧
      (minExponent < e → 2 ^ 52 * (scaled num den e).2 ≤ (scaled num den e).1) := by
  have hd : (0 : ℚ) < (scaled num den e).2 := Nat.cast_pos.mpr (scaled_pos hden e)
  have hq : (0 : ℚ) < num / den := div_pos (Nat.cast_pos.mpr hnum) (Nat.cast_pos.mpr hden)
  have hpow : (0 : ℚ) < 2 ^ e := zpow_pos (by norm_num) e
  rw [binaryExponent_eq hnum hden] at he
  have hlow : (2 : ℚ) ^ Int.log 2 ((num : ℚ) / den) ≤ num / den :=
    Int.zpow_log_le_self (by decide) hq
  have hhigh : (num : ℚ) / den < (2 : ℚ) ^ (Int.log 2 ((num : ℚ) / den) + 1) :=
    Int.lt_zpow_succ_log_self (by decide) _
  constructor
  · have hlt : ((scaled num den e).1 : ℚ) / (scaled num den e).2 < 2 ^ (53 : Int) := by
      rw [scaled_ratio, div_lt_iff₀ hpow, ← zpow_add₀ (by norm_num)]
      exact hhigh.trans_le (zpow_le_zpow_right₀ (by norm_num) (by omega))
    rw [div_lt_iff₀ hd] at hlt
    exact_mod_cast hlt
  · intro hmin
    have hle : (2 : ℚ) ^ (52 : Int) ≤ ((scaled num den e).1 : ℚ) / (scaled num den e).2 := by
      rw [scaled_ratio, le_div_iff₀ hpow, ← zpow_add₀ (by norm_num)]
      exact (zpow_le_zpow_right₀ (by norm_num) (by omega)).trans hlow
    rw [le_div_iff₀ hd] at hle
    exact_mod_cast hle

/-- What a quotient is rounded to is a double. -/
theorem isDouble_ofRatio (negative : Bool) (num den : Nat) :
    (ofRatio negative num den).IsDouble := by
  unfold ofRatio
  by_cases hzero : num = 0 ∨ den = 0
  · rw [if_pos hzero]
    exact .inl ⟨by decide, rfl⟩
  · rw [if_neg hzero]
    rw [not_or] at hzero
    dsimp only
    generalize he : max minExponent (binaryExponent num den - 52) = e
    obtain ⟨hhigh, hlow⟩ :=
      scaled_bounds (Nat.pos_of_ne_zero hzero.1) (Nat.pos_of_ne_zero hzero.2) he.symm
    have hd := @scaled_pos num den (Nat.pos_of_ne_zero hzero.2) e
    have hmost := (divNearest_bounds hd (Nat.zero_mul _ ▸ Nat.zero_le _) hhigh).2
    have hleast : minExponent < e → 2 ^ 52 ≤ divNearest _ _ := fun hmin =>
      (divNearest_bounds hd (hlow hmin) hhigh).1
    have hmin : minExponent ≤ e := he ▸ le_max_left _ _
    generalize divNearest (scaled num den e).1 (scaled num den e).2 = m at hmost hleast
    by_cases hfull : m = Nat.pow 2 53
    · rw [if_pos hfull, if_neg (show ¬ Nat.pow 2 52 = 0 by decide)]
      by_cases hrange : maxExponent < e + 1
      · rw [if_pos hrange]
        trivial
      · rw [if_neg hrange]
        exact .inr ⟨le_rfl, show Nat.pow 2 52 < Nat.pow 2 53 by decide, by omega, by omega⟩
    · rw [if_neg hfull]
      have hlt : m < Nat.pow 2 53 := Nat.lt_of_le_of_ne hmost hfull
      by_cases hnone : m = 0
      · rw [if_pos hnone]
        exact .inl ⟨by decide, rfl⟩
      · rw [if_neg hnone]
        by_cases hrange : maxExponent < e
        · rw [if_pos hrange]
          trivial
        · rw [if_neg hrange]
          obtain heq | hgt := hmin.eq_or_lt
          · exact .inl ⟨hlt, heq.symm⟩
          · exact .inr ⟨hleast hgt, hlt, hmin, by omega⟩

end Rounded

section Exact

variable {m num den : Nat} {e : Int}

theorem log_mantissa (hm : 0 < m) (e : Int) : Int.log 2 ((m : ℚ) * 2 ^ e) = m.log2 + e := by
  obtain ⟨hlow, hhigh⟩ := log2_bounds hm
  have hpow : (0 : ℚ) < 2 ^ e := zpow_pos (by norm_num) e
  have hq : (0 : ℚ) < m * 2 ^ e := mul_pos (Nat.cast_pos.mpr hm) hpow
  have hge : ((2 : ℕ) : ℚ) ^ ((m.log2 : Int) + e) ≤ m * 2 ^ e := by
    rw [Nat.cast_ofNat, zpow_add₀ (by norm_num)]
    exact mul_le_mul_of_nonneg_right hlow hpow.le
  have hlt : (m : ℚ) * 2 ^ e < ((2 : ℕ) : ℚ) ^ ((m.log2 : Int) + e + 1) := by
    rw [Nat.cast_ofNat, add_right_comm, zpow_add₀ (by norm_num)]
    exact mul_lt_mul_of_pos_right hhigh hpow
  have := (Int.zpow_le_iff_le_log (by decide) hq).mp hge
  have := (Int.lt_zpow_iff_log_lt (by decide) hq).mp hlt
  omega

/-- The exponent that a mantissa is rounded at is its own. -/
theorem Canonical.exponent (h : Canonical m e) (hm : 0 < m) :
    max minExponent ((m.log2 : Int) + e - 52) = e := by
  obtain ⟨hlt, rfl⟩ | ⟨hge, hlt, hmin, _⟩ := h
  · have := (Nat.log2_lt hm.ne').mpr hlt
    omega
  · have := (Nat.log2_lt hm.ne').mpr hlt
    have := (Nat.le_log2 hm.ne').mpr hge
    omega

theorem divNearest_exact {d : Nat} (hd : 0 < d) (m : Nat) : divNearest (m * d) d = m := by
  have hone : divNearest m 1 = m := by simp [divNearest, Nat.mod_one]
  rw [← Nat.one_mul d, ← Nat.mul_assoc, Nat.mul_one, divNearest_mul hd, hone]

/-- The value of a double is rounded to the double. -/
theorem ofRatio_exact (hden : 0 < den) (hm : 0 < m) (h : Canonical m e)
    (hvalue : (num : ℚ) / den = m * 2 ^ e) (negative : Bool) :
    ofRatio negative num den = .finite negative m e := by
  have hpow : (0 : ℚ) < 2 ^ e := zpow_pos (by norm_num) e
  have hnum : 0 < num := by
    refine Nat.pos_of_ne_zero fun hzero => ?_
    rw [hzero, Nat.cast_zero, zero_div] at hvalue
    exact absurd hvalue (mul_pos (Nat.cast_pos.mpr hm) hpow).ne
  have hexponent : max minExponent (binaryExponent num den - 52) = e := by
    rw [binaryExponent_eq hnum hden, hvalue, log_mantissa hm, h.exponent hm]
  have hscaled : (scaled num den e).1 = m * (scaled num den e).2 := by
    have hpos : (0 : ℚ) < (scaled num den e).2 := Nat.cast_pos.mpr (scaled_pos hden e)
    have hratio := scaled_ratio num den e
    rw [hvalue, mul_div_cancel_right₀ _ hpow.ne', div_eq_iff hpos.ne'] at hratio
    exact_mod_cast hratio
  have hnearest : divNearest (scaled num den e).1 (scaled num den e).2 = m := by
    rw [hscaled, divNearest_exact (scaled_pos hden e)]
  have hsmall : m ≠ Nat.pow 2 53 := by
    obtain ⟨hlt, _⟩ | ⟨_, hlt, _⟩ := h
    · exact hlt.ne
    · exact hlt.ne
  have hrange : ¬ maxExponent < e := by
    obtain ⟨_, rfl⟩ | ⟨_, _, _, hmax⟩ := h
    · decide
    · exact hmax.not_gt
  unfold ofRatio
  rw [if_neg (by simp [hnum.ne', hden.ne'])]
  simp only [hexponent, hnearest, if_neg hsmall, if_neg hm.ne', if_neg hrange]

/-- The sign is carried along. -/
theorem ofRatio_negative (h : ofRatio false num den = .finite false m e) (negative : Bool) :
    ofRatio negative num den = .finite negative m e := by
  unfold ofRatio at h ⊢
  by_cases hzero : num = 0 ∨ den = 0
  · rw [if_pos hzero] at h ⊢
    cases h
    rfl
  · rw [if_neg hzero] at h ⊢
    dsimp only at h ⊢
    generalize (if divNearest _ _ = Nat.pow 2 53 then (Nat.pow 2 52, _) else _ : Nat × Int) = found
      at h ⊢
    by_cases hnone : found.1 = 0
    · rw [if_pos hnone] at h ⊢
      cases h
      rfl
    · rw [if_neg hnone] at h ⊢
      by_cases hrange : maxExponent < found.2
      · rw [if_pos hrange] at h
        cases h
      · rw [if_neg hrange] at h ⊢
        cases h
        rfl

end Exact

/-! ## Decimals -/

section Decimals

variable {m n digits : Nat} {e exponent : Int}

theorem decimalLength_mul_pow (hn : 0 < n) (j : Nat) :
    decimalLength (n * 10 ^ j) = decimalLength n + j := by
  induction j with
  | zero => rw [Nat.pow_zero, Nat.mul_one, Nat.add_zero]
  | succ j ih =>
    have hle : 10 ≤ n * 10 ^ j * 10 :=
      Nat.le_mul_of_pos_left 10 (Nat.mul_pos hn (Nat.pow_pos (by decide)))
    rw [Nat.pow_succ, ← Nat.mul_assoc, decimalLength, Nat.toDigits_of_base_le (by decide) hle,
      Nat.mul_div_cancel _ (by decide), List.length_append, ← decimalLength, ih]
    rfl

theorem lt_pow_decimalLength (n : Nat) : n < 10 ^ decimalLength n :=
  (Nat.length_toDigits_le_iff (by decide) (List.length_pos_iff.mpr Nat.toDigits_ne_nil)).mp le_rfl

theorem pow_decimalLength_le (hn : 0 < n) : 10 ^ (decimalLength n - 1) ≤ n := by
  by_cases hone : decimalLength n - 1 = 0
  · rw [hone]
    exact hn
  · by_contra hlt
    have := (Nat.length_toDigits_le_iff (by decide) (Nat.pos_of_ne_zero hone)).mpr
      (Nat.lt_of_not_le hlt)
    rw [← decimalLength] at this
    omega

/-- Zeros behind the digits stand for a greater exponent. -/
theorem ofDecimal_mul_pow (negative : Bool) (digits j : Nat) (exponent : Int) :
    ofDecimal negative (digits * 10 ^ j) exponent = ofDecimal negative digits (exponent + j) := by
  unfold ofDecimal
  by_cases hzero : digits = 0
  · rw [if_pos hzero, if_pos (by rw [hzero, Nat.zero_mul])]
  · have hpos : 0 < 10 ^ j := Nat.pow_pos (by decide)
    have htop : exponent + (decimalLength (digits * 10 ^ j) : Int) =
        exponent + j + decimalLength digits := by
      rw [decimalLength_mul_pow (Nat.pos_of_ne_zero hzero)]
      push_cast
      ring
    rw [if_neg hzero, if_neg (Nat.mul_ne_zero hzero hpos.ne'), htop]
    dsimp only
    split
    · rfl
    · split
      · rfl
      · simp only [Nat.pow_eq]
        have hdigits : ∀ k : Nat, 0 < 10 ^ k := fun k => Nat.pow_pos (by decide)
        split
        · next hexponent =>
          rw [if_pos (show 0 ≤ exponent + j by omega),
            show (exponent + j).toNat = j + exponent.toNat by omega, Nat.pow_add, Nat.mul_assoc]
        · next hexponent =>
          split
          · next hsum =>
            refine ofRatio_congr (hdigits _) Nat.one_pos ?_ negative
            rw [Nat.mul_one, Nat.mul_assoc, ← Nat.pow_add,
              show (exponent + j).toNat + (-exponent).toNat = j by omega]
          · next hsum =>
            refine ofRatio_congr (hdigits _) (hdigits _) ?_ negative
            rw [Nat.mul_assoc, ← Nat.pow_add,
              show j + (-(exponent + j)).toNat = (-exponent).toNat by omega]

theorem ofDecimal_negative (h : ofDecimal false digits exponent = .finite false m e)
    (negative : Bool) : ofDecimal negative digits exponent = .finite negative m e := by
  unfold ofDecimal at h ⊢
  split at h
  · next hzero =>
    rw [if_pos hzero]
    cases h
    rfl
  · next hzero =>
    rw [if_neg hzero]
    dsimp only at h ⊢
    split at h
    · cases h
    · next hhigh =>
      rw [if_neg hhigh]
      split at h
      · next hlow =>
        rw [if_pos hlow]
        cases h
        rfl
      · next hlow =>
        rw [if_neg hlow]
        split at h
        · next hexponent =>
          rw [if_pos hexponent]
          exact ofRatio_negative h negative
        · next hexponent =>
          rw [if_neg hexponent]
          exact ofRatio_negative h negative

theorem isDouble_ofDecimal (negative : Bool) (digits : Nat) (exponent : Int) :
    (ofDecimal negative digits exponent).IsDouble := by
  unfold ofDecimal
  dsimp only
  split
  · exact .inl ⟨by decide, rfl⟩
  · split
    · trivial
    · split
      · exact .inl ⟨by decide, rfl⟩
      · split
        · exact isDouble_ofRatio _ _ _
        · exact isDouble_ofRatio _ _ _

theorem pow_lt_pow_of_nat {a b k l : Nat} (h : a ^ k < b ^ l) :
    (a : ℚ) ^ (k : Int) < (b : ℚ) ^ (l : Int) := by
  rw [zpow_natCast, zpow_natCast]
  exact_mod_cast h

/-- Doubles are within the range that is not decided by the length of a decimal. -/
theorem Canonical.bounds (h : Canonical m e) (hm : 0 < m) :
    (10 : ℚ) ^ (-330 : Int) < m * 2 ^ e ∧ (m : ℚ) * 2 ^ e < 10 ^ (309 : Int) := by
  have hfew : (m : ℚ) < 2 ^ (53 : Int) := by
    have hlt : m < 2 ^ 53 := by
      obtain ⟨hlt, _⟩ | ⟨_, hlt, _⟩ := h
      · exact hlt
      · exact hlt
    exact_mod_cast hlt
  have hexponent : minExponent ≤ e ∧ e ≤ maxExponent := by
    obtain ⟨_, rfl⟩ | ⟨_, _, hexponent⟩ := h
    · decide
    · exact hexponent
  have hlow : (2 : ℚ) ^ minExponent ≤ 2 ^ e := zpow_le_zpow_right₀ (by norm_num) hexponent.1
  have hhigh : (2 : ℚ) ^ e ≤ 2 ^ maxExponent := zpow_le_zpow_right₀ (by norm_num) hexponent.2
  have hpow : (0 : ℚ) < 2 ^ e := zpow_pos (by norm_num) e
  have hleast : (10 : ℚ) ^ (-330 : Int) < 2 ^ minExponent := by
    have hlt := @pow_lt_pow_of_nat 2 10 1074 330 (by decide +kernel)
    have hinv := inv_strictAnti₀ (zpow_pos (by norm_num) _) hlt
    rwa [← zpow_neg, ← zpow_neg] at hinv
  have hgreatest : (2 : ℚ) ^ (53 : Int) * 2 ^ maxExponent < 10 ^ (309 : Int) := by
    rw [← zpow_add₀ (by norm_num)]
    exact @pow_lt_pow_of_nat 2 10 1024 309 (by decide +kernel)
  constructor
  · calc (10 : ℚ) ^ (-330 : Int) < 2 ^ minExponent := hleast
      _ ≤ 2 ^ e := hlow
      _ = 1 * 2 ^ e := (one_mul _).symm
      _ ≤ m * 2 ^ e := mul_le_mul_of_nonneg_right (by exact_mod_cast hm) hpow.le
  · calc (m : ℚ) * 2 ^ e < 2 ^ (53 : Int) * 2 ^ e := mul_lt_mul_of_pos_right hfew hpow
      _ ≤ 2 ^ (53 : Int) * 2 ^ maxExponent := mul_le_mul_of_nonneg_left hhigh (by norm_num)
      _ < 10 ^ (309 : Int) := hgreatest

/-- A decimal with the value of a double is read as the double. -/
theorem ofDecimal_exact (hm : 0 < m) (h : Canonical m e)
    (hvalue : (digits : ℚ) * 10 ^ exponent = m * 2 ^ e) (negative : Bool) :
    ofDecimal negative digits exponent = .finite negative m e := by
  have htwo : (0 : ℚ) < 2 ^ e := zpow_pos (by norm_num) e
  have hten : (0 : ℚ) < 10 ^ exponent := zpow_pos (by norm_num) exponent
  have hdigits : 0 < digits := by
    refine Nat.pos_of_ne_zero fun hzero => ?_
    rw [hzero, Nat.cast_zero, zero_mul] at hvalue
    exact absurd hvalue (mul_pos (Nat.cast_pos.mpr hm) htwo).ne
  obtain ⟨hlow, hhigh⟩ := h.bounds hm
  rw [← hvalue] at hlow hhigh
  have habove : (10 : ℚ) ^ (exponent + decimalLength digits - 1) ≤ digits * 10 ^ exponent := by
    have hpow : (10 : ℚ) ^ ((decimalLength digits : Int) - 1) ≤ digits := by
      have hlength : 0 < decimalLength digits := List.length_pos_iff.mpr Nat.toDigits_ne_nil
      rw [← Nat.cast_one, ← Nat.cast_sub hlength, zpow_natCast]
      exact_mod_cast pow_decimalLength_le hdigits
    rw [add_sub_assoc, add_comm, zpow_add₀ (by norm_num)]
    exact mul_le_mul_of_nonneg_right hpow hten.le
  have hbelow : (digits : ℚ) * 10 ^ exponent < 10 ^ (exponent + decimalLength digits) := by
    have hpow : (digits : ℚ) < 10 ^ (decimalLength digits : Int) := by
      rw [zpow_natCast]
      exact_mod_cast lt_pow_decimalLength digits
    rw [add_comm, zpow_add₀ (by norm_num)]
    exact mul_lt_mul_of_pos_right hpow hten
  have htop := (zpow_lt_zpow_iff_right₀ (by norm_num)).mp (habove.trans_lt hhigh)
  have hbottom := (zpow_lt_zpow_iff_right₀ (by norm_num)).mp (hlow.trans hbelow)
  unfold ofDecimal
  dsimp only
  rw [if_neg hdigits.ne', if_neg (by omega), if_neg (by omega)]
  simp only [Nat.pow_eq]
  split
  · next hexponent =>
    refine ofRatio_exact Nat.one_pos hm h ?_ negative
    rw [← hvalue, Nat.cast_one, div_one, Nat.cast_mul, Nat.cast_pow, Nat.cast_ofNat, ← zpow_natCast,
      Int.toNat_of_nonneg hexponent]
  · next hexponent =>
    refine ofRatio_exact (Nat.pow_pos (by decide)) hm h ?_ negative
    rw [← hvalue, Nat.cast_pow, Nat.cast_ofNat, ← zpow_natCast,
      Int.toNat_of_nonneg (by omega), zpow_neg, div_inv_eq_mul]

end Decimals

end ApiContract.Binary64
