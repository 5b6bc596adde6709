import Mathlib.Data.Int.Log
import Mathlib.Data.Rat.Floor
import Mathlib.Tactic.FieldSimp
import Mathlib.Tactic.Linarith
import Mathlib.Tactic.NormNum
import Mathlib.Tactic.Positivity
import Blockwright.Number.Double
/-!
# Rounding to 53 binary digits

What a fraction is rounded to depends on its value only. A value that is closer to a number than
that number's own sixteenth decimal digit is rounded to it.
-/

namespace Blockwright.Double

/-! ## Fractions -/

theorem cast_twoTo (k : Nat) : (twoTo k : ℚ) = 2 ^ k := by
  rw [twoTo, Nat.pow_eq, Nat.cast_pow, Nat.cast_ofNat]

theorem twoTo_ne_zero (k : Nat) : twoTo k ≠ 0 := (Nat.two_pow_pos k).ne'

/-- The value of a fraction. -/
def ratio (num den : Nat) : ℚ := num / den

theorem ratio_pos {num den : Nat} (hnum : num ≠ 0) (hden : den ≠ 0) : 0 < ratio num den := by
  unfold ratio
  positivity

theorem ratio_eq_iff {num den num' den' : Nat} (hden : den ≠ 0) (hden' : den' ≠ 0) :
    ratio num den = ratio num' den' ↔ num * den' = num' * den := by
  unfold ratio
  rw [div_eq_div_iff (by exact_mod_cast hden) (by exact_mod_cast hden')]
  exact_mod_cast Iff.rfl

theorem ratio_lt_iff {num den k : Nat} (hden : den ≠ 0) : ratio num den < k ↔ num < k * den := by
  have hden' : (0 : ℚ) < den := by exact_mod_cast Nat.pos_of_ne_zero hden
  rw [ratio, div_lt_iff₀ hden']
  exact_mod_cast Iff.rfl

theorem le_ratio_iff {num den k : Nat} (hden : den ≠ 0) : (k : ℚ) ≤ ratio num den ↔ k * den ≤ num := by
  rw [← not_lt, ratio_lt_iff hden, Nat.not_lt]

theorem shifted_ne_zero {num den : Nat} (hden : den ≠ 0) (e : Int) : (shifted num den e).2 ≠ 0 := by
  unfold shifted
  split
  · exact Nat.mul_ne_zero hden (twoTo_ne_zero _)
  · exact hden

theorem ratio_shifted {num den : Nat} (hden : den ≠ 0) (e : Int) :
    ratio (shifted num den e).1 (shifted num den e).2 = ratio num den / 2 ^ e := by
  unfold shifted ratio
  have hden' : (den : ℚ) ≠ 0 := by exact_mod_cast hden
  split
  · rename_i he
    obtain ⟨k, rfl⟩ := Int.eq_ofNat_of_zero_le he
    simp [div_div]
  · rename_i he
    obtain ⟨k, rfl⟩ : ∃ k : Nat, e = -(k : Int) := ⟨(-e).toNat, by omega⟩
    simp
    field_simp

/-! ## Rounding to a whole number -/

theorem roundDiv_mul {c : Nat} (hc : c ≠ 0) (n d : Nat) : roundDiv (n * c) (d * c) = roundDiv n d := by
  have hpos : 0 < c := Nat.pos_of_ne_zero hc
  unfold roundDiv
  rw [Nat.mul_div_mul_right _ _ hpos, Nat.mul_mod_mul_right]
  have hlow : (2 * (n % d * c) < d * c) = (2 * (n % d) < d) := by
    rw [← Nat.mul_assoc, Nat.mul_lt_mul_right hpos]
  have hhigh : (d * c < 2 * (n % d * c)) = (d < 2 * (n % d)) := by
    rw [← Nat.mul_assoc, Nat.mul_lt_mul_right hpos]
  simp only [hlow, hhigh]

theorem roundDiv_congr {n d n' d' : Nat} (hd : d ≠ 0) (hd' : d' ≠ 0) (h : ratio n d = ratio n' d') :
    roundDiv n d = roundDiv n' d' := by
  rw [ratio_eq_iff hd hd'] at h
  rw [← roundDiv_mul hd' n d, h, Nat.mul_comm d d', roundDiv_mul hd]

theorem roundDiv_cases (n d : Nat) : roundDiv n d = n / d ∨ roundDiv n d = n / d + 1 := by
  unfold roundDiv
  dsimp only
  split_ifs
  · exact .inl rfl
  · exact .inr rfl
  · exact .inl rfl
  · exact .inr rfl

theorem le_roundDiv {n d k : Nat} (hd : d ≠ 0) (h : (k : ℚ) ≤ ratio n d) : k ≤ roundDiv n d := by
  have hquotient : k ≤ n / d := (Nat.le_div_iff_mul_le (Nat.pos_of_ne_zero hd)).2 ((le_ratio_iff hd).1 h)
  rcases roundDiv_cases n d with hround | hround <;> omega

theorem roundDiv_le {n d k : Nat} (hd : d ≠ 0) (h : ratio n d < k) : roundDiv n d ≤ k := by
  have hquotient : n / d < k := (Nat.div_lt_iff_lt_mul (Nat.pos_of_ne_zero hd)).2 ((ratio_lt_iff hd).1 h)
  rcases roundDiv_cases n d with hround | hround <;> omega

/-- A fraction is rounded to the whole number that is less than a half away. -/
theorem roundDiv_eq {n d m : Nat} (hd : d ≠ 0) (h : |ratio n d - m| < 1 / 2) : roundDiv n d = m := by
  have hd' : (0 : ℚ) < d := by exact_mod_cast Nat.pos_of_ne_zero hd
  rw [abs_lt, ratio, sub_lt_iff_lt_add, div_lt_iff₀ hd', lt_sub_iff_add_lt, lt_div_iff₀ hd'] at h
  have hlow : 2 * (m * d) < 2 * n + d := by
    have : (2 * (m * d) : ℚ) < 2 * n + d := by linarith [h.1]
    exact_mod_cast this
  have hhigh : 2 * n < 2 * (m * d) + d := by
    have : (2 * n : ℚ) < 2 * (m * d) + d := by linarith [h.2]
    exact_mod_cast this
  have hsplit := Nat.div_add_mod n d
  have hmod := Nat.mod_lt n (Nat.pos_of_ne_zero hd)
  -- the quotient is the whole number, or one below it
  have hle : n / d ≤ m := by
    by_contra hlt
    have hmul := Nat.mul_le_mul_left d (Nat.succ_le_of_lt (Nat.lt_of_not_le hlt))
    rw [Nat.succ_eq_add_one, Nat.mul_add, Nat.mul_comm d m] at hmul
    omega
  have hge : m ≤ n / d + 1 := by
    by_contra hlt
    have hmul := Nat.mul_le_mul_left d (Nat.succ_le_of_lt (Nat.lt_of_not_le hlt))
    rw [Nat.succ_eq_add_one, Nat.mul_add, Nat.mul_add, Nat.mul_comm d m] at hmul
    omega
  unfold roundDiv
  rcases Nat.lt_or_ge (n / d) m with hlt | hsame
  · have hquotient : n / d + 1 = m := by omega
    rw [← hquotient] at hlow
    have hlow' : d < 2 * (n % d) := by
      rw [Nat.add_mul, Nat.mul_comm (n / d) d] at hlow
      omega
    rw [if_neg (by omega), if_pos hlow', hquotient]
  · have hquotient : n / d = m := by omega
    rw [← hquotient] at hhigh
    have hhigh' : 2 * (n % d) < d := by
      rw [Nat.mul_comm (n / d) d] at hhigh
      omega
    rw [if_pos hhigh', hquotient]

/-! ## The exponent of a value -/

theorem zpow_two_pos (e : Int) : (0 : ℚ) < 2 ^ e := zpow_pos two_pos e

/-- How many binary digits a value has in units of a power of two. -/
theorem le_log_iff {x : ℚ} (hx : 0 < x) (e k : Int) : e + k ≤ Int.log 2 (x * 2 ^ e) ↔ 2 ^ k ≤ x := by
  have hle : (2 : ℚ) ^ (e + k) ≤ x * 2 ^ e ↔ (2 : ℚ) ^ k ≤ x := by
    rw [zpow_add₀ two_ne_zero, mul_comm]
    exact mul_le_mul_iff_of_pos_right (zpow_two_pos e)
  rw [← hle, ← Int.zpow_le_iff_le_log (by decide) (mul_pos hx (zpow_two_pos e)), Nat.cast_ofNat]

theorem log_lt_iff {x : ℚ} (hx : 0 < x) (e k : Int) : Int.log 2 (x * 2 ^ e) < e + k ↔ x < 2 ^ k := by
  rw [← not_le, le_log_iff hx, not_le]

theorem log_eq {q : ℚ} (hq : 0 < q) {k : Int} (hlow : (2 : ℚ) ^ k ≤ q) (hhigh : q < 2 ^ (k + 1)) : Int.log 2 q = k := by
  have hk : k ≤ Int.log 2 q := (Int.zpow_le_iff_le_log (by decide) hq).1 (by exact_mod_cast hlow)
  have hk' : Int.log 2 q < k + 1 := (Int.lt_zpow_iff_log_lt (by decide) hq).1 (by exact_mod_cast hhigh)
  omega

/-- A fraction has 53 binary digits in front of its point at an exponent, unless that would be below the least one. -/
theorem exponentOf_eq {num den : Nat} (hnum : num ≠ 0) (hden : den ≠ 0) :
    exponentOf num den = max (Int.log 2 (ratio num den) - 52) minExponent := by
  have hq : 0 < ratio num den := ratio_pos hnum hden
  have hden' : (0 : ℚ) < den := by exact_mod_cast Nat.pos_of_ne_zero hden
  have hnumlow : (2 : ℚ) ^ (Nat.log2 num : Int) ≤ num := by
    exact_mod_cast Nat.log2_self_le hnum
  have hnumhigh : (num : ℚ) < 2 ^ ((Nat.log2 num : Int) + 1) := by
    exact_mod_cast Nat.lt_log2_self
  have hdenlow : (2 : ℚ) ^ (Nat.log2 den : Int) ≤ den := by
    exact_mod_cast Nat.log2_self_le hden
  have hdenhigh : (den : ℚ) < 2 ^ ((Nat.log2 den : Int) + 1) := by
    exact_mod_cast Nat.lt_log2_self
  have hlow : (2 : ℚ) ^ ((Nat.log2 num : Int) - Nat.log2 den - 1) ≤ ratio num den := by
    rw [show (Nat.log2 num : Int) - Nat.log2 den - 1 = Nat.log2 num - (Nat.log2 den + 1) by omega, zpow_sub₀ two_ne_zero, ratio]
    exact div_le_div₀ (Nat.cast_nonneg _) hnumlow hden' hdenhigh.le
  have hhigh : ratio num den < (2 : ℚ) ^ ((Nat.log2 num : Int) - Nat.log2 den + 1) := by
    rw [show (Nat.log2 num : Int) - Nat.log2 den + 1 = Nat.log2 num + 1 - Nat.log2 den by omega, zpow_sub₀ two_ne_zero, ratio]
    exact div_lt_div₀ hnumhigh hdenlow (zpow_two_pos _).le (zpow_two_pos _)
  generalize hguess : (Nat.log2 num : Int) - Nat.log2 den - 52 = guess
  have hcompare : (shifted num den guess).1 < (shifted num den guess).2 * twoTo 52 ↔ ratio num den < 2 ^ (guess + 52) := by
    rw [zpow_add₀ two_ne_zero, mul_comm ((2 : ℚ) ^ guess), ← div_lt_iff₀ (zpow_two_pos _), ← ratio_shifted hden,
      mul_comm (shifted num den guess).2, ← ratio_lt_iff (shifted_ne_zero hden guess)]
    exact_mod_cast Iff.rfl
  unfold exponentOf
  dsimp only
  rw [hguess]
  congr 1
  split
  · rename_i h
    rw [log_eq hq (k := guess + 51) (by convert hlow using 2; omega) (by rw [add_assoc]; exact hcompare.1 h)]
    omega
  · rename_i h
    rw [log_eq hq (k := guess + 52) (not_lt.1 (mt hcompare.2 h)) (by convert hhigh using 2; omega)]
    omega

/-! ## Rounded fractions -/

theorem ofFraction_zero (negative : Bool) (den : Nat) : ofFraction negative 0 den = .finite negative 0 minExponent := by
  unfold ofFraction
  split
  · rfl
  · rename_i h
    exact absurd rfl h

theorem ofFraction_eq {num den : Nat} (hnum : num ≠ 0) (hden : den ≠ 0) (negative : Bool) :
    ofFraction negative num den =
      ofMantissa negative (roundDiv (shifted num den (exponentOf num den)).1 (shifted num den (exponentOf num den)).2)
        (exponentOf num den) := by
  have hzero : ¬(decide (num = 0) || decide (den = 0)) = true := by simp [hnum, hden]
  -- the exponent and the shifted pair become variables before the match on the pair is opened:
  -- the kernel would otherwise compute with both
  generalize hr : ofMantissa _ _ _ = r
  unfold ofFraction
  refine (if_neg hzero).trans ?_
  generalize exponentOf num den = e at hr ⊢
  conv => lhs; zeta
  generalize shifted num den e = p at hr ⊢
  cases p
  exact hr

/-- What a fraction is rounded to depends on its value only. -/
theorem ofFraction_congr {num den num' den' : Nat} (hden : den ≠ 0) (hden' : den' ≠ 0)
    (h : ratio num den = ratio num' den') (negative : Bool) : ofFraction negative num den = ofFraction negative num' den' := by
  have hzero : num = 0 ↔ num' = 0 := by
    have hcross := (ratio_eq_iff hden hden').1 h
    constructor
    · rintro rfl
      simpa [hden] using hcross.symm
    · rintro rfl
      simpa [hden'] using hcross
  by_cases hnum : num = 0
  · rw [hnum, hzero.1 hnum, ofFraction_zero, ofFraction_zero]
  · have hnum' := mt hzero.2 hnum
    have hexponent : exponentOf num den = exponentOf num' den' := by
      rw [exponentOf_eq hnum hden, exponentOf_eq hnum' hden', h]
    rw [ofFraction_eq hnum hden, ofFraction_eq hnum' hden', hexponent,
      roundDiv_congr (shifted_ne_zero hden _) (shifted_ne_zero hden' _) (by rw [ratio_shifted hden, ratio_shifted hden', h])]

/-- A mantissa and an exponent as finite numbers have them: 53 binary digits, or the least exponent. -/
structure Normal (m : Nat) (e : Int) : Prop where
  mantissa : m < 2 ^ 53
  least : minExponent ≤ e
  greatest : e ≤ maxExponent
  leading : 2 ^ 52 ≤ m ∨ e = minExponent

theorem ofMantissa_normal {m : Nat} {e : Int} (h : Normal m e) (hm : m ≠ 0) (negative : Bool) :
    ofMantissa negative m e = .finite negative m e := by
  have hcarry : m ≠ twoTo 53 := Nat.ne_of_lt h.mantissa
  unfold ofMantissa
  rw [if_neg hcarry]
  show (if m = 0 then Double.finite negative 0 minExponent else if maxExponent < e then .infinity negative else
    .finite negative m e) = _
  rw [if_neg hm, if_neg (Int.not_lt.2 h.greatest)]

theorem ofMantissa_carry {e : Int} (he : e + 1 ≤ maxExponent) (negative : Bool) :
    ofMantissa negative (2 ^ 53) e = .finite negative (2 ^ 52) (e + 1) := by
  unfold ofMantissa
  rw [if_pos (show 2 ^ 53 = twoTo 53 from rfl)]
  show (if twoTo 52 = 0 then Double.finite negative 0 minExponent else if maxExponent < e + 1 then .infinity negative else
    .finite negative (twoTo 52) (e + 1)) = _
  rw [if_neg (by decide), if_neg (Int.not_lt.2 he)]
  rfl

theorem ofFraction_of_exponent {num den m : Nat} {e : Int} (hnum : num ≠ 0) (hden : den ≠ 0)
    (hexponent : exponentOf num den = e) (h : |ratio num den / 2 ^ e - m| < 1 / 2) (negative : Bool) :
    ofFraction negative num den = ofMantissa negative m e := by
  rw [ofFraction_eq hnum hden, hexponent, roundDiv_eq (shifted_ne_zero hden e) (ratio_shifted hden e ▸ h)]

section
variable {num den m : Nat} {e : Int} {x : ℚ}

/-- In units of its last place a value is less than a half away from a mantissa. -/
theorem ofFraction_of_last_place (hnormal : Normal m e) (hm : m ≠ 0) (hnum : num ≠ 0) (hden : den ≠ 0)
    (hratio : ratio num den = x * 2 ^ e) (hx : 0 < x) (hclose : |x - m| < 1 / 2) (hlead : 2 ^ 52 ≤ x ∨ e = minExponent)
    (negative : Bool) : ofFraction negative num den = .finite negative m e := by
  have hpow := zpow_two_pos e
  have hexponent : exponentOf num den = e := by
    have hhigh : Int.log 2 (x * 2 ^ e) < e + 53 := by
      have htop : m + 1 ≤ 2 ^ 53 := hnormal.mantissa
      have htop' : (m : ℚ) + 1 ≤ 2 ^ 53 := by exact_mod_cast htop
      refine (log_lt_iff hx e 53).2 ?_
      have habove := (abs_lt.1 hclose).2
      norm_num at htop' ⊢
      linarith
    have hleast := hnormal.least
    rw [exponentOf_eq hnum hden, hratio]
    rcases hlead with hlead | he
    · have hlow : e + 52 ≤ Int.log 2 (x * 2 ^ e) := (le_log_iff hx e 52).2 (by exact_mod_cast hlead)
      omega
    · omega
  have hunits : ratio num den / 2 ^ e = x := by rw [hratio, mul_div_cancel_right₀ _ hpow.ne']
  rw [ofFraction_of_exponent hnum hden hexponent (hunits ▸ hclose), ofMantissa_normal hnormal hm]

/-- Below the least mantissa of an exponent, the greatest one of the exponent below is carried over. -/
theorem ofFraction_of_carry (hleast : minExponent < e) (hgreatest : e ≤ maxExponent) (hnum : num ≠ 0) (hden : den ≠ 0)
    (hratio : ratio num den = x * 2 ^ e) (hclose : |x - 2 ^ 52| < 1 / 4) (hbelow : x < 2 ^ 52) (negative : Bool) :
    ofFraction negative num den = .finite negative (2 ^ 52) e := by
  have hlow := (abs_lt.1 hclose).1
  have hx : 0 < x := by
    norm_num at hlow
    linarith
  have hexponent : exponentOf num den = e - 1 := by
    have hlog : e + 51 ≤ Int.log 2 (x * 2 ^ e) := by
      refine (le_log_iff hx e 51).2 ?_
      norm_num at hlow ⊢
      linarith
    have hlog' : Int.log 2 (x * 2 ^ e) < e + 52 := (log_lt_iff hx e 52).2 (by exact_mod_cast hbelow)
    rw [exponentOf_eq hnum hden, hratio]
    omega
  have hcarried : |ratio num den / 2 ^ (e - 1) - (2 ^ 53 : Nat)| < 1 / 2 := by
    have hdouble : ratio num den / 2 ^ (e - 1) - (2 ^ 53 : Nat) = 2 * (x - 2 ^ 52) := by
      rw [hratio, zpow_sub₀ two_ne_zero]
      push_cast
      field_simp
      ring
    rw [hdouble, abs_mul]
    norm_num at hclose ⊢
    linarith
  rw [ofFraction_of_exponent hnum hden hexponent hcarried, ofMantissa_carry (by omega), Int.sub_add_cancel]

/-- A value is rounded to a number from which it is not farther away than half of the sixteenth decimal digit. -/
theorem ofFraction_eq_of_near (hnormal : Normal m e) (hm : m ≠ 0) (hden : den ≠ 0)
    (h : |ratio num den - m * 2 ^ e| * (2 * 10 ^ 16) ≤ m * 2 ^ e) (negative : Bool) :
    ofFraction negative num den = .finite negative m e := by
  have hpow := zpow_two_pos e
  have hmpos : (1 : ℚ) ≤ m := by exact_mod_cast Nat.pos_of_ne_zero hm
  have hmlt : (m : ℚ) < 2 ^ 53 := by exact_mod_cast hnormal.mantissa
  obtain ⟨x, hx⟩ : ∃ x, ratio num den / 2 ^ e = x := ⟨_, rfl⟩
  have hratio : ratio num den = x * 2 ^ e := by rw [← hx, div_mul_cancel₀ _ hpow.ne']
  have hnear : |x - m| * (2 * 10 ^ 16) ≤ m := by
    rw [hratio, ← sub_mul, abs_mul, abs_of_pos hpow, mul_right_comm] at h
    exact le_of_mul_le_mul_right h hpow
  have hclose : |x - m| < 1 / 2 := by
    have hreach : (2 : ℚ) ^ 53 < 10 ^ 16 := by norm_num
    linarith
  obtain ⟨hlow, hhigh⟩ := abs_lt.1 hclose
  have hpos : 0 < x := by linarith
  have hnum : num ≠ 0 := by
    rintro rfl
    have hzero : (0 : ℚ) = x * 2 ^ e := by simpa [ratio] using hratio
    exact absurd hzero (mul_pos hpos hpow).ne
  by_cases hlead : 2 ^ 52 ≤ x ∨ e = minExponent
  · exact ofFraction_of_last_place hnormal hm hnum hden hratio hpos hclose hlead negative
  · obtain ⟨hbelow, he⟩ := not_or.1 hlead
    have hm52 : m = 2 ^ 52 := by
      have hleading : 2 ^ 52 ≤ m := hnormal.leading.resolve_right he
      have hlt : (m : ℚ) < 2 ^ 52 + 1 := by linarith
      have hlt' : m < 2 ^ 52 + 1 := by exact_mod_cast hlt
      omega
    have hquarter : |x - 2 ^ 52| < 1 / 4 := by
      have hm' : (m : ℚ) = 2 ^ 52 := by exact_mod_cast hm52
      rw [hm'] at hnear
      norm_num at hnear ⊢
      linarith
    have hleast := hnormal.least
    rw [hm52]
    exact ofFraction_of_carry (by omega) hnormal.greatest hnum hden hratio hquarter (not_le.1 hbelow) negative

end

end Blockwright.Double
