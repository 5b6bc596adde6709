import Blockwright.Proofs.Number.Rounding
/-!
# Comparing and adding numbers

Finite numbers are compared by their values, so that one of two is at most the other. Rounding gives
numbers in one form only, and adding zero to a number gives the number itself.
-/

namespace Blockwright.Double

variable {m n : Nat} {e f : Int}

/-! ## Numbers from rounding -/

theorem normal_zero : Normal 0 minExponent := ⟨by norm_num, le_refl _, by decide, .inr rfl⟩

theorem normal_of_ofMantissa {negative s : Bool} {r : Nat} {k : Int} (hr : r ≤ 2 ^ 53) (hlead : 2 ^ 52 ≤ r ∨ k = minExponent)
    (hleast : minExponent ≤ k) (h : ofMantissa negative r k = .finite s m e) : Normal m e := by
  -- what is left of a carry
  have hcases : ∀ r k, (2 ^ 52 ≤ r ∨ k = minExponent) → minExponent ≤ k → r < 2 ^ 53 →
      (if r = 0 then Double.finite negative 0 minExponent else if maxExponent < k then .infinity negative
        else .finite negative r k) = .finite s m e → Normal m e := by
    intro r k hlead hleast hr h
    split at h
    · cases h
      exact normal_zero
    · split at h
      · cases h
      · rename_i hgreatest
        cases h
        exact ⟨hr, hleast, Int.not_lt.1 hgreatest, hlead⟩
  unfold ofMantissa at h
  by_cases hcarry : r = twoTo 53
  · rw [if_pos hcarry] at h
    refine hcases (2 ^ 52) (k + 1) (.inl (le_refl _)) (by omega) (by norm_num) h
  · rw [if_neg hcarry] at h
    exact hcases r k hlead hleast (Nat.lt_of_le_of_ne hr hcarry) h

/-- A fraction is rounded to a mantissa of at most 53 binary digits at an exponent, with fewer only at the
least one. The mantissa of a fraction that is not below one is not zero, and the exponent bounds the fraction. -/
theorem exists_mantissa {num den : Nat} (hnum : num ≠ 0) (hden : den ≠ 0) (negative : Bool) : ∃ r k,
    ofFraction negative num den = ofMantissa negative r k ∧ r ≤ 2 ^ 53 ∧ (2 ^ 52 ≤ r ∨ k = minExponent) ∧
      minExponent ≤ k ∧ (den ≤ num → r ≠ 0) ∧ ratio num den < 2 ^ (53 + k) := by
  obtain ⟨k, hk⟩ : ∃ k, exponentOf num den = k := ⟨_, rfl⟩
  obtain ⟨x, hx⟩ : ∃ x, ratio num den / 2 ^ k = x := ⟨_, rfl⟩
  have hratio : ratio num den = x * 2 ^ k := by rw [← hx, div_mul_cancel₀ _ (zpow_two_pos k).ne']
  have hpos : 0 < x := by
    rw [← hx]
    exact div_pos (ratio_pos hnum hden) (zpow_two_pos k)
  have hexponent := hk
  rw [exponentOf_eq hnum hden, hratio] at hexponent
  have hhigh : x < (2 ^ 53 : Nat) := by
    have hlog := (log_lt_iff hpos k 53).1 (by omega)
    exact_mod_cast hlog
  have hlow : (2 ^ 52 : Nat) ≤ x ∨ k = minExponent := by
    by_cases hmin : k = minExponent
    · exact .inr hmin
    · have hlog := (le_log_iff hpos k 52).1 (by omega)
      exact .inl (by exact_mod_cast hlog)
  have hshifted : ratio (shifted num den k).1 (shifted num den k).2 = x := (ratio_shifted hden k).trans hx
  have hne : (shifted num den k).2 ≠ 0 := shifted_ne_zero hden k
  have hlead : 2 ^ 52 ≤ roundDiv (shifted num den k).1 (shifted num den k).2 ∨ k = minExponent :=
    hlow.imp_left fun hlow => le_roundDiv hne (hshifted ▸ hlow)
  have hbound : ratio num den < 2 ^ (53 + k) := by
    rw [hratio, zpow_add₀ two_ne_zero]
    exact mul_lt_mul_of_pos_right (by exact_mod_cast hhigh) (zpow_two_pos k)
  refine ⟨_, k, hk ▸ ofFraction_eq hnum hden negative, roundDiv_le hne (hshifted ▸ hhigh), hlead, by omega, fun hle => ?_, hbound⟩
  rcases hlead with hlead | hleast
  · exact Nat.ne_of_gt (Nat.lt_of_lt_of_le (by norm_num) hlead)
  · have hone : ((1 : Nat) : ℚ) ≤ x := by
      have hratio' : (1 : ℚ) ≤ ratio num den := by
        rw [ratio, one_le_div (by exact_mod_cast Nat.pos_of_ne_zero hden)]
        exact_mod_cast hle
      have hpower : (2 : ℚ) ^ k ≤ 1 := zpow_le_one_of_nonpos₀ one_le_two (by rw [hleast]; decide)
      rw [← hx, Nat.cast_one, one_le_div (zpow_two_pos k)]
      exact hpower.trans hratio'
    exact Nat.ne_of_gt (le_roundDiv hne (hshifted ▸ hone))

/-- Finite numbers that rounding gives are in their normal form. -/
theorem normal_of_ofFraction {num den : Nat} (hden : den ≠ 0) {negative s : Bool}
    (h : ofFraction negative num den = .finite s m e) : Normal m e := by
  by_cases hnum : num = 0
  · rw [hnum, ofFraction_zero] at h
    cases h
    exact normal_zero
  · obtain ⟨r, k, hround, hr, hlead, hleast, -, -⟩ := exists_mantissa hnum hden negative
    exact normal_of_ofMantissa hr hlead hleast (hround.symm.trans h)

theorem normal_of_ofInt {k : Int} {s : Bool} (h : ofInt k = .finite s m e) : Normal m e :=
  normal_of_ofFraction one_ne_zero h

/-- What is not rounded to zero stays finite up to the greatest exponent. -/
theorem ne_zero_of_ofMantissa {negative s : Bool} {r : Nat} {k : Int} (hr : r ≠ 0)
    (h : ofMantissa negative r k = .finite s m e) : m ≠ 0 ∧ k ≤ maxExponent := by
  have hcases : ∀ r k, r ≠ 0 → (if r = 0 then Double.finite negative 0 minExponent
      else if maxExponent < k then .infinity negative else .finite negative r k) = .finite s m e →
      m ≠ 0 ∧ k ≤ maxExponent := by
    intro r k hr h
    rw [if_neg hr] at h
    split at h
    · cases h
    · rename_i hgreatest
      cases h
      exact ⟨hr, Int.not_lt.1 hgreatest⟩
  unfold ofMantissa at h
  by_cases hcarry : r = twoTo 53
  · rw [if_pos hcarry] at h
    obtain ⟨hm, hgreatest⟩ := hcases (twoTo 52) (k + 1) (twoTo_ne_zero 52) h
    exact ⟨hm, by omega⟩
  · rw [if_neg hcarry] at h
    exact hcases r k hr h

/-- A whole number other than zero whose nearest number is finite. -/
theorem bounds_of_ofInt {k : Int} (hk : k ≠ 0) {s : Bool} (h : ofInt k = .finite s m e) : m ≠ 0 ∧ k.natAbs.log2 < 1024 := by
  have hnum : k.natAbs ≠ 0 := Int.natAbs_ne_zero.2 hk
  obtain ⟨r, i, hround, -, -, -, hr, hbound⟩ := exists_mantissa hnum one_ne_zero (k < 0)
  obtain ⟨hm, hgreatest⟩ := ne_zero_of_ofMantissa (hr (Nat.one_le_iff_ne_zero.2 hnum)) (hround.symm.trans h)
  refine ⟨hm, ?_⟩
  have hhigh : ratio k.natAbs 1 < (2 : ℚ) ^ (1024 : Int) :=
    hbound.trans_le (zpow_le_zpow_right₀ one_le_two (by rw [maxExponent] at hgreatest; omega))
  rw [ratio, Nat.cast_one, div_one] at hhigh
  exact (Nat.log2_lt hnum).2 (by exact_mod_cast hhigh)

/-- Only zero is rounded to zero, and that has no sign. -/
theorem ofInt_eq_zero {k : Int} {s : Bool} (h : ofInt k = .finite s m e) : (m = 0 ↔ k = 0) ∧ (m = 0 → s = false) := by
  by_cases hk : k = 0
  · subst hk
    have hzero : ofInt 0 = .finite false 0 minExponent := ofFraction_zero false 1
    rw [hzero] at h
    cases h
    exact ⟨iff_of_true rfl rfl, fun _ => rfl⟩
  · have hm := (bounds_of_ofInt hk h).1
    exact ⟨iff_of_false hm hk, fun hzero => absurd hzero hm⟩

/-! ## Values -/

/-- The value of a finite number. -/
def value (negative : Bool) (m : Nat) (e : Int) : ℚ := signed negative m * 2 ^ e

theorem inUnits_eq (negative : Bool) {unit : Int} (h : unit ≤ e) :
    (inUnits negative m e unit : ℚ) = value negative m e / 2 ^ unit := by
  obtain ⟨k, rfl⟩ : ∃ k : Nat, e = unit + k := ⟨(e - unit).toNat, by omega⟩
  have hcast : unit + k - unit = (k : Int) := by omega
  rw [value, zpow_add₀ two_ne_zero, eq_div_iff (zpow_two_pos unit).ne', inUnits, hcast, Int.toNat_natCast]
  rw [Int.cast_mul, Int.cast_natCast, cast_twoTo, zpow_natCast]
  ring

/-- Finite numbers are compared by their values. -/
theorem le_finite (s t : Bool) : le (.finite s m e) (.finite t n f) = decide (value s m e ≤ value t n f) := by
  have hunits : inUnits s m e (min e f) ≤ inUnits t n f (min e f) ↔ value s m e ≤ value t n f := by
    rw [← Int.cast_le (R := ℚ), inUnits_eq s (min_le_left e f), inUnits_eq t (min_le_right e f)]
    exact div_le_div_iff_of_pos_right (zpow_two_pos _)
  exact decide_eq_decide.2 hunits

theorem value_zero (s : Bool) : value s 0 e = 0 := by
  cases s <;> simp [value, signed]

theorem zero_le_value (m : Nat) (e : Int) : 0 ≤ value false m e := by
  rw [value, signed, if_neg Bool.false_ne_true]
  exact mul_nonneg (by exact_mod_cast Nat.zero_le m) (zpow_two_pos e).le

theorem value_eq_zero_iff {s : Bool} : value s m e = 0 ↔ m = 0 := by
  rw [value, mul_eq_zero, or_iff_left (zpow_two_pos e).ne']
  cases s <;> simp [signed]

theorem value_true (m : Nat) (e : Int) : value true m e = -value false m e := by
  simp [value, signed]

/-- Of two finite numbers one is at most the other. -/
theorem le_of_not_le {s t : Bool} (h : le (.finite s m e) (.finite t n f) = false) :
    le (.finite t n f) (.finite s m e) = true := by
  rw [le_finite, decide_eq_false_iff_not, not_le] at h
  rw [le_finite, decide_eq_true_iff]
  exact h.le

theorem zero_le_abs (s : Bool) : le zero (abs (.finite s m e)) = true := by
  rw [abs, zero, le_finite, decide_eq_true_iff, value_zero]
  exact zero_le_value m e

/-- Only zero is not below zero with a minus sign. -/
theorem zero_le_neg_abs (s : Bool) : le zero (neg (abs (.finite s m e))) = decide (m = 0) := by
  have hsign : 0 ≤ value true m e ↔ m = 0 := by
    rw [value_true, Left.nonneg_neg_iff, ← value_eq_zero_iff (s := false) (e := e)]
    exact ⟨fun h => le_antisymm h (zero_le_value m e), fun h => h.le⟩
  rw [abs, neg, zero, le_finite, value_zero]
  exact decide_eq_decide.2 hsign

/-! ## Numbers in normal form -/

theorem ofFraction_eq_of_value {num den : Nat} (hnormal : Normal m e) (hm : m ≠ 0) (hden : den ≠ 0)
    (h : ratio num den = m * 2 ^ e) (negative : Bool) : ofFraction negative num den = .finite negative m e := by
  refine ofFraction_eq_of_near hnormal hm hden ?_ negative
  rw [h, sub_self, abs_zero, zero_mul]
  exact mul_nonneg (Nat.cast_nonneg m) (zpow_two_pos e).le

theorem normal_one : Normal (2 ^ 52) (-52) := ⟨by norm_num, by decide, by decide, .inl (le_refl _)⟩

theorem one_eq : one = .finite false (2 ^ 52) (-52) := by
  have hvalue : ratio 1 1 = (2 ^ 52 : Nat) * 2 ^ (-52 : Int) := by norm_num [ratio]
  have hround : ofFraction false 1 1 = .finite false (2 ^ 52) (-52) :=
    ofFraction_eq_of_value normal_one (by norm_num) one_ne_zero hvalue false
  exact hround

/-- A number in normal form that is as great as one is the number one. -/
theorem eq_one_of_same (hnormal : Normal m e) (h : same (.finite false m e) one = true) : Double.finite false m e = one := by
  rw [one_eq, same, le_finite, le_finite, Bool.and_eq_true, decide_eq_true_iff, decide_eq_true_iff] at h
  have hvalue : value false m e = 1 := by
    rw [le_antisymm h.1 h.2, value, signed, if_neg Bool.false_ne_true]
    norm_num
  have hm : m ≠ 0 := by
    rintro rfl
    rw [value_zero] at hvalue
    exact zero_ne_one hvalue
  rw [value, signed, if_neg Bool.false_ne_true] at hvalue
  have hround : ofFraction false 1 1 = .finite false m e := by
    refine ofFraction_eq_of_value hnormal hm one_ne_zero ?_ false
    rw [← show ((m : Int) : ℚ) * 2 ^ e = m * 2 ^ e by norm_num, hvalue]
    norm_num [ratio]
  exact hround.symm

theorem signed_mul (s : Bool) (m k : Nat) : signed s m * k = signed s (m * k) := by
  cases s <;> simp [signed]

theorem natAbs_signed (s : Bool) (m : Nat) : (signed s m).natAbs = m := by
  cases s <;> simp [signed]

theorem signed_eq_zero_iff {s : Bool} : signed s m = 0 ↔ m = 0 := by
  cases s <;> simp [signed]

theorem signed_lt_zero (s : Bool) (hm : m ≠ 0) : decide (signed s m < 0) = s := by
  cases s
  · simp [signed]
  · simpa [signed] using Nat.pos_of_ne_zero hm

theorem add_finite (s t : Bool) :
    add (.finite s m e) (.finite t n f) =
      ofDyadic (if inUnits s m e (min e f) + inUnits t n f (min e f) = 0 then s && t
          else inUnits s m e (min e f) + inUnits t n f (min e f) < 0)
        (inUnits s m e (min e f) + inUnits t n f (min e f)).natAbs (min e f) := rfl

/-- A number in normal form is what its own value in units of the least exponent is rounded to. -/
theorem ofDyadic_least {k : Nat} (hnormal : Normal m (minExponent + k)) (s : Bool) :
    ofDyadic s (m * 2 ^ k) minExponent = .finite s m (minExponent + k) := by
  have hfraction : ofDyadic s (m * 2 ^ k) minExponent = ofFraction s (m * 2 ^ k) (twoTo (-minExponent).toNat) :=
    if_neg (by decide)
  rw [hfraction]
  by_cases hm : m = 0
  · have hleast : minExponent + (k : Int) = minExponent := by
      rcases hnormal.leading with hlead | hleast
      · omega
      · exact hleast
    rw [hm, Nat.zero_mul, ofFraction_zero, hleast]
  · obtain ⟨c, hc⟩ : ∃ c : Nat, minExponent = -(c : Int) := ⟨1074, rfl⟩
    rw [hc] at hnormal ⊢
    rw [Int.neg_neg, Int.toNat_natCast]
    refine ofFraction_eq_of_value hnormal hm (twoTo_ne_zero c) ?_ s
    rw [ratio, zpow_add₀ two_ne_zero, zpow_neg, zpow_natCast, zpow_natCast]
    rw [cast_twoTo, Nat.cast_mul, Nat.cast_pow, Nat.cast_ofNat, div_eq_mul_inv]
    ring

/-- Adding zero with a minus sign gives the number itself. -/
theorem add_neg_zero (hnormal : Normal m e) (s : Bool) : add (.finite s m e) (neg zero) = .finite s m e := by
  have hleast := hnormal.least
  obtain ⟨k, rfl⟩ : ∃ k : Nat, e = minExponent + k := ⟨(e - minExponent).toNat, by omega⟩
  have hunit : min (minExponent + (k : Int)) minExponent = minExponent := by omega
  have hunits : inUnits s m (minExponent + k) minExponent = signed s (m * 2 ^ k) := by
    rw [inUnits, show minExponent + (k : Int) - minExponent = k by omega, Int.toNat_natCast]
    exact signed_mul s m (2 ^ k)
  have hzero : inUnits true 0 minExponent minExponent = 0 := rfl
  have hsign : (if signed s (m * 2 ^ k) = 0 then s && true else decide (signed s (m * 2 ^ k) < 0)) = s := by
    split
    · exact Bool.and_true s
    · rename_i hne
      exact signed_lt_zero s (mt signed_eq_zero_iff.2 hne)
  rw [zero, neg, Bool.not_false, add_finite, hunit, hunits, hzero, Int.add_zero, hsign, natAbs_signed, ofDyadic_least hnormal]

end Blockwright.Double
