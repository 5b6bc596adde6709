import Blockwright.Number.Shortest
import Blockwright.Proofs.Number.Rounding
/-!
# Seventeen digits read back

The decimal of seventeen digits that is nearest to a number is rounded to that number again, so the
search for the fewest digits finds some. The zeros dropped at the end do not change the value.
-/

namespace Blockwright.Double

variable {m : Nat} {e : Int}

/-! ## Counting digits -/

theorem cast_tenTo (k : Nat) : (tenTo k : ℚ) = 10 ^ k := by
  rw [tenTo, Nat.pow_eq, Nat.cast_pow, Nat.cast_ofNat]

theorem tenTo_ne_zero (k : Nat) : tenTo k ≠ 0 := (Nat.pow_pos (by decide)).ne'

theorem zpow_ten_pos (k : Int) : (0 : ℚ) < 10 ^ k := zpow_pos (by norm_num) k

theorem digitCount_pos (n : Nat) : 0 < digitCount n := Nat.length_toDigits_pos

theorem lt_pow_digitCount (n : Nat) : n < 10 ^ digitCount n :=
  (Nat.length_toDigits_le_iff (by decide) (digitCount_pos n)).1 (le_refl _)

theorem pow_le_of_ne_zero {n : Nat} (hn : n ≠ 0) : 10 ^ (digitCount n - 1) ≤ n := by
  by_contra hlt
  rcases Nat.eq_zero_or_pos (digitCount n - 1) with hone | hpos
  · rw [hone] at hlt
    omega
  · have hle := (Nat.length_toDigits_le_iff (b := 10) (by decide) hpos).2 (Nat.lt_of_not_le hlt)
    have := digitCount_pos n
    unfold digitCount at *
    omega

theorem digitCount_eq {n k : Nat} (hlow : 10 ^ k ≤ n) (hhigh : n < 10 ^ (k + 1)) : digitCount n = k + 1 := by
  have hle : digitCount n ≤ k + 1 := (Nat.length_toDigits_le_iff (by decide) (Nat.succ_pos k)).2 hhigh
  have hlt : k < digitCount n := (Nat.pow_lt_pow_iff_right (by decide)).1 (hlow.trans_lt (lt_pow_digitCount n))
  omega

theorem digitCount_mul_ten {n : Nat} (hn : n ≠ 0) : digitCount (n * 10) = digitCount n + 1 := by
  have hpos := digitCount_pos n
  have hlow := pow_le_of_ne_zero hn
  have hhigh := lt_pow_digitCount n
  refine digitCount_eq ?_ ?_
  · rw [show digitCount n = digitCount n - 1 + 1 by omega, Nat.pow_succ]
    exact Nat.mul_le_mul_right 10 hlow
  · rw [Nat.pow_succ]
    exact Nat.mul_lt_mul_of_pos_right hhigh (by decide)

theorem dropZeros_spec (fuel : Nat) {n : Nat} (hn : n ≠ 0) :
    dropZeros fuel n ≠ 0 ∧ ∃ z, n = dropZeros fuel n * 10 ^ z ∧ digitCount n = digitCount (dropZeros fuel n) + z := by
  induction fuel generalizing n with
  | zero => exact ⟨hn, 0, by simp [dropZeros], rfl⟩
  | succ fuel ih =>
    unfold dropZeros
    split
    · rename_i hzero
      simp only [bne_iff_ne, ne_eq, Bool.and_eq_true, decide_eq_true_eq] at hzero
      have hten : n = n / 10 * 10 := by omega
      have hrest : n / 10 ≠ 0 := by omega
      obtain ⟨hne, z, hvalue, hcount⟩ := ih hrest
      refine ⟨hne, z + 1, ?_, ?_⟩
      · rw [Nat.pow_succ, ← Nat.mul_assoc, ← hvalue]
        exact hten
      · have hcount' := digitCount_mul_ten hrest
        rw [← hten] at hcount'
        omega
    · exact ⟨hn, 0, by simp, rfl⟩

/-! ## Decimal fractions -/

theorem inTens_ne_zero {num den : Nat} (hden : den ≠ 0) (k : Int) : (inTens num den k).2 ≠ 0 := by
  unfold inTens
  split
  · exact Nat.mul_ne_zero hden (tenTo_ne_zero _)
  · exact hden

theorem ratio_inTens {num den : Nat} (hden : den ≠ 0) (k : Int) :
    ratio (inTens num den k).1 (inTens num den k).2 = ratio num den / 10 ^ k := by
  unfold inTens ratio
  have hden' : (den : ℚ) ≠ 0 := by exact_mod_cast hden
  split
  · rename_i hk
    obtain ⟨j, rfl⟩ := Int.eq_ofNat_of_zero_le hk
    simp [div_div]
  · rename_i hk
    obtain ⟨j, rfl⟩ : ∃ j : Nat, k = -(j : Int) := ⟨(-k).toNat, by omega⟩
    simp
    field_simp

theorem fractionOf_ne_zero (m : Nat) (e : Int) : (fractionOf m e).2 ≠ 0 := by
  unfold fractionOf
  split
  · exact one_ne_zero
  · exact twoTo_ne_zero _

theorem fractionOf_num_ne_zero (e : Int) (hm : m ≠ 0) : (fractionOf m e).1 ≠ 0 := by
  unfold fractionOf
  split
  · exact Nat.mul_ne_zero hm (twoTo_ne_zero _)
  · exact hm

theorem ratio_fractionOf (m : Nat) (e : Int) : ratio (fractionOf m e).1 (fractionOf m e).2 = m * 2 ^ e := by
  unfold fractionOf ratio
  split
  · rename_i he
    obtain ⟨j, rfl⟩ := Int.eq_ofNat_of_zero_le he
    simp
  · rename_i he
    obtain ⟨j, rfl⟩ : ∃ j : Nat, e = -(j : Int) := ⟨(-e).toNat, by omega⟩
    simp [div_eq_mul_inv]

/-- The powers of ten around a quotient of whole numbers are those around its whole part. -/
theorem ratio_bounds {num den : Nat} (hden : den ≠ 0) (hle : den ≤ num) :
    (10 : ℚ) ^ (digitCount (num / den) - 1) ≤ ratio num den ∧ ratio num den < 10 ^ digitCount (num / den) := by
  have hquotient : num / den ≠ 0 := (Nat.div_pos hle (Nat.pos_of_ne_zero hden)).ne'
  constructor
  · have hlow := (Nat.le_div_iff_mul_le (Nat.pos_of_ne_zero hden)).1 (pow_le_of_ne_zero hquotient)
    exact_mod_cast (le_ratio_iff hden).2 hlow
  · have hhigh := (Nat.div_lt_iff_lt_mul (Nat.pos_of_ne_zero hden)).1 (lt_pow_digitCount (num / den))
    exact_mod_cast (ratio_lt_iff hden).2 hhigh

/-- The point stands behind the first digit that is not zero, or as many places in front of it as there are zeros. -/
theorem pointOf_spec {num den : Nat} (hnum : num ≠ 0) (hden : den ≠ 0) :
    (10 : ℚ) ^ (pointOf num den - 1) ≤ ratio num den ∧ ratio num den < 10 ^ pointOf num den := by
  unfold pointOf
  split
  · rename_i hle
    obtain ⟨hlow, hhigh⟩ := ratio_bounds hden hle
    have hpos := digitCount_pos (num / den)
    refine ⟨?_, by rwa [zpow_natCast]⟩
    rwa [show (digitCount (num / den) : Int) - 1 = (digitCount (num / den) - 1 : Nat) by omega, zpow_natCast]
  · rename_i hlt
    -- the powers of ten around the inverse
    obtain ⟨hlow, hhigh⟩ := ratio_bounds hnum (Nat.le_of_not_le hlt)
    obtain ⟨l, hl⟩ : ∃ l, digitCount (den / num) = l + 1 := ⟨digitCount (den / num) - 1, by
      have := digitCount_pos (den / num)
      omega⟩
    have hinv : ratio den num = (ratio num den)⁻¹ := by rw [ratio, ratio, inv_div]
    have hq := ratio_pos hnum hden
    rw [hl, hinv, Nat.add_sub_cancel] at hlow
    rw [hl, hinv] at hhigh
    have hpow : ∀ k : Nat, (0 : ℚ) < 10 ^ k := fun k => by positivity
    have hbelow : (10 : ℚ) ^ (-(l + 1 : Nat) : Int) < ratio num den := by
      rw [zpow_neg, zpow_natCast]
      exact (inv_lt_comm₀ hq (hpow _)).1 hhigh
    have habove : ratio num den ≤ (10 : ℚ) ^ (-(l : Nat) : Int) := by
      rw [zpow_neg, zpow_natCast]
      exact (le_inv_comm₀ hq (hpow l)).2 hlow
    dsimp only
    rw [hl, Nat.add_sub_cancel]
    have hcompare : den ≤ num * tenTo l ↔ (10 : ℚ) ^ (-(l : Nat) : Int) ≤ ratio num den := by
      rw [zpow_neg, zpow_natCast, inv_le_comm₀ (hpow l) hq, ← hinv, ratio, div_le_iff₀ (by exact_mod_cast Nat.pos_of_ne_zero hnum),
        mul_comm, ← cast_tenTo]
      exact_mod_cast Iff.rfl
    split
    · rename_i h
      refine ⟨?_, habove.trans_lt (zpow_lt_zpow_right₀ (by norm_num) (by omega))⟩
      convert hcompare.1 h using 2
      omega
    · rename_i h
      rw [show (1 : Int) - (l + 1 : Nat) - 1 = -(l + 1 : Nat) by omega, show (1 : Int) - (l + 1 : Nat) = -(l : Nat) by omega]
      exact ⟨hbelow.le, not_le.1 (mt hcompare.2 h)⟩

/-! ## Digits that read back -/

/-- Every fraction of a value is rounded to the number. -/
def RoundsTo (q : ℚ) (m : Nat) (e : Int) : Prop :=
  ∀ ⦃num den : Nat⦄, den ≠ 0 → ratio num den = q → ∀ negative, ofFraction negative num den = .finite negative m e

theorem ofMantissa_sign {r : Nat} {k : Int} (h : ofMantissa false r k = .finite false m e) (negative : Bool) :
    ofMantissa negative r k = .finite negative m e := by
  have hcases : ∀ r k, (if r = 0 then Double.finite false 0 minExponent else if maxExponent < k then .infinity false
        else .finite false r k) = .finite false m e →
      (if r = 0 then Double.finite negative 0 minExponent else if maxExponent < k then .infinity negative
        else .finite negative r k) = .finite negative m e := by
    intro r k h
    split_ifs at h ⊢ <;> cases h <;> rfl
  unfold ofMantissa at h ⊢
  by_cases hcarry : r = twoTo 53
  · rw [if_pos hcarry] at h ⊢
    exact hcases (2 ^ 52) (k + 1) h
  · rw [if_neg hcarry] at h ⊢
    exact hcases r k h

/-- A value is rounded to a number when one of its fractions is, and with either sign. -/
theorem roundsTo_iff {num den : Nat} (hden : den ≠ 0) :
    RoundsTo (ratio num den) m e ↔ ofFraction false num den = .finite false m e := by
  refine ⟨fun h => h hden rfl false, fun h num' den' hden' hratio negative => ?_⟩
  rw [ofFraction_congr hden' hden hratio]
  by_cases hnum : num = 0
  · rw [hnum, ofFraction_zero] at h ⊢
    cases h
    rfl
  · rw [ofFraction_eq hnum hden] at h ⊢
    exact ofMantissa_sign h negative

theorem readsBack_iff (m : Nat) (e : Int) (d : Nat) (k : Int) : readsBack m e d k = true ↔ RoundsTo (d * 10 ^ k) m e := by
  unfold readsBack
  split
  rename_i n q hfraction
  have hq : q ≠ 0 ∧ ratio n q = d * 10 ^ k := by
    split at hfraction
    · rename_i hk
      obtain ⟨j, rfl⟩ := Int.eq_ofNat_of_zero_le hk
      cases hfraction
      exact ⟨one_ne_zero, by simp [ratio]⟩
    · rename_i hk
      obtain ⟨j, rfl⟩ : ∃ j : Nat, k = -(j : Int) := ⟨(-k).toNat, by omega⟩
      cases hfraction
      exact ⟨tenTo_ne_zero _, by simp [ratio, div_eq_mul_inv]⟩
  rw [← hq.2, roundsTo_iff hq.1, beq_iff_eq]

section
variable {num den : Nat}

/-- A fraction in units of the last of its digits lies between the powers of ten with that many digits. -/
theorem inTens_bounds (hnum : num ≠ 0) (hden : den ≠ 0) (c : Nat) :
    let n := (inTens num den (pointOf num den - (c + 1 : Nat))).1
    let d := (inTens num den (pointOf num den - (c + 1 : Nat))).2
    10 ^ c ≤ n / d ∧ n / d < 10 ^ (c + 1) := by
  intro n d
  obtain ⟨hlow, hhigh⟩ := pointOf_spec hnum hden
  have hd : d ≠ 0 := inTens_ne_zero hden _
  have hratio : ratio n d = ratio num den / 10 ^ (pointOf num den - (c + 1 : Nat)) := ratio_inTens hden _
  have hunit := zpow_ten_pos (pointOf num den - (c + 1 : Nat))
  have hten : (10 : ℚ) ≠ 0 := by norm_num
  constructor
  · rw [Nat.le_div_iff_mul_le (Nat.pos_of_ne_zero hd), ← le_ratio_iff hd, hratio, le_div_iff₀ hunit, Nat.cast_pow,
      Nat.cast_ofNat, ← zpow_natCast, ← zpow_add₀ hten, show (c : Int) + (pointOf num den - (c + 1 : Nat)) = pointOf num den - 1 by omega]
    exact hlow
  · rw [Nat.div_lt_iff_lt_mul (Nat.pos_of_ne_zero hd), ← ratio_lt_iff hd, hratio, div_lt_iff₀ hunit, Nat.cast_pow,
      Nat.cast_ofNat, ← zpow_natCast, ← zpow_add₀ hten, show ((c + 1 : Nat) : Int) + (pointOf num den - (c + 1 : Nat)) = pointOf num den by omega]
    exact hhigh

end

/-- What is taken of two neighbours reads back when one of them does. -/
theorem reads_chosen (reads : Nat → Bool) {below : Nat} (nearer even : Bool) (h : (reads below || reads (below + 1)) = true) :
    reads (if (reads below && (!reads (below + 1) || nearer || even)) = true then below else below + 1) = true := by
  split
  · rename_i hpick
    exact (Bool.and_eq_true_iff.1 hpick).1
  · rename_i hpick
    cases habove : reads (below + 1)
    · rw [habove, Bool.or_false] at h
      simp [h, habove] at hpick
    · rfl

/-- What a count of digits finds has that many, or is the power of ten behind them, and reads back. -/
theorem withDigits?_spec {c : Nat} {D : Digits} (hm : m ≠ 0) (h : withDigits? m e (c + 1) = some D) :
    D.value ≠ 0 ∧ RoundsTo (D.value * 10 ^ (D.point - digitCount D.value)) m e ∧
      pointOf (fractionOf m e).1 (fractionOf m e).2 ≤ D.point ∧ D.point ≤ pointOf (fractionOf m e).1 (fractionOf m e).2 + 1 := by
  have hden := fractionOf_ne_zero m e
  have hnum := fractionOf_num_ne_zero e hm
  have hbounds := inTens_bounds hnum hden c
  revert h hbounds hden hnum
  rw [withDigits?]
  generalize fractionOf m e = fraction
  obtain ⟨num, den⟩ := fraction
  dsimp only
  intro h hden hnum hbounds
  generalize pointOf num den = p at *
  generalize inTens num den (p - (c + 1 : Nat)) = quotient at *
  obtain ⟨n, d⟩ := quotient
  dsimp only at *
  generalize n / d = below at *
  split at h
  · rename_i hreads
    cases h
    -- what is chosen reads back, and has as many digits as are counted unless it is the next power of ten
    obtain ⟨chosen, hchosen⟩ : ∃ chosen, (if (readsBack m e below (p - (c + 1 : Nat)) &&
        (!readsBack m e (below + 1) (p - (c + 1 : Nat)) || decide (2 * (n % d) < d) ||
          decide (2 * (n % d) = d) && decide (below % 2 = 0))) = true then below else below + 1) = chosen := ⟨_, rfl⟩
    have hback : readsBack m e chosen (p - (c + 1 : Nat)) = true :=
      hchosen ▸ reads_chosen (fun d => readsBack m e d (p - (c + 1 : Nat))) _ _ hreads
    have hchoice : chosen = below ∨ chosen = below + 1 := by
      rw [← hchosen]
      split
      · exact .inl rfl
      · exact .inr rfl
    rw [hchosen]
    have hne : chosen ≠ 0 := by
      have := Nat.pow_pos (n := c) (show 0 < 10 by decide)
      omega
    have hcount : digitCount chosen = c + 1 ∨ digitCount chosen = c + 2 := by
      rcases Nat.lt_or_ge chosen (10 ^ (c + 1)) with hlt | hge
      · exact .inl (digitCount_eq (by omega) hlt)
      · refine .inr (digitCount_eq hge ?_)
        rw [Nat.pow_succ 10 (c + 1)]
        omega
    refine ⟨hne, ?_, ?_⟩
    · dsimp only
      rw [readsBack_iff] at hback
      rcases hcount with hcount | hcount
      · rwa [if_pos hcount, hcount]
      · rw [if_neg (by omega), hcount, show p + 1 - ((c + 2 : Nat) : Int) = p - (c + 1 : Nat) by omega]
        exact hback
    · dsimp only
      split <;> omega
  · cases h

/-- A value in units of its seventeenth digit is rounded to the number from one of its neighbours among the whole
numbers. -/
theorem roundsTo_neighbour (hnormal : Normal m e) (hm : m ≠ 0) {y : ℚ} {k : Int} (hvalue : (m : ℚ) * 2 ^ e = y * 10 ^ k)
    (hlarge : 10 ^ 16 ≤ y) {d : Nat} (hnear : |(d : ℚ) - y| ≤ 1 / 2) : RoundsTo (d * 10 ^ k) m e := by
  intro num den hden hratio negative
  have hunit := zpow_ten_pos k
  refine ofFraction_eq_of_near hnormal hm hden ?_ negative
  have hscale : (0 : ℚ) ≤ 2 * 10 ^ 16 := by norm_num
  rw [hratio, hvalue, ← sub_mul, abs_mul, abs_of_pos hunit, mul_right_comm]
  refine mul_le_mul_of_nonneg_right ?_ hunit.le
  calc |(d : ℚ) - y| * (2 * 10 ^ 16) ≤ 1 / 2 * (2 * 10 ^ 16) := mul_le_mul_of_nonneg_right hnear hscale
    _ = 10 ^ 16 := by norm_num
    _ ≤ y := hlarge

/-- Seventeen digits are enough. -/
theorem isSome_withDigits?_seventeen (hnormal : Normal m e) (hm : m ≠ 0) : (withDigits? m e 17).isSome = true := by
  have hden := fractionOf_ne_zero m e
  have hbounds := inTens_bounds (fractionOf_num_ne_zero e hm) hden 16
  have hfraction := ratio_fractionOf m e
  have htens := @ratio_inTens (fractionOf m e).1 _ hden (pointOf (fractionOf m e).1 (fractionOf m e).2 - (17 : Nat))
  have hd := @inTens_ne_zero (fractionOf m e).1 _ hden (pointOf (fractionOf m e).1 (fractionOf m e).2 - (17 : Nat))
  revert hden hbounds hfraction htens hd
  rw [withDigits?]
  generalize fractionOf m e = fraction
  obtain ⟨num, den⟩ := fraction
  dsimp only
  generalize pointOf num den - (17 : Nat) = k
  intro hden hbounds hfraction htens hd
  rw [hfraction] at htens
  generalize inTens num den k = quotient at *
  obtain ⟨n, d⟩ := quotient
  dsimp only at *
  have hvalue : (m : ℚ) * 2 ^ e = ratio n d * 10 ^ k := by rw [htens, div_mul_cancel₀ _ (zpow_ten_pos k).ne']
  have hpos := Nat.pos_of_ne_zero hd
  have hlow : ((n / d : Nat) : ℚ) ≤ ratio n d := (le_ratio_iff hd).2 (Nat.div_mul_le_self n d)
  have hhigh : ratio n d < (n / d + 1 : Nat) := (ratio_lt_iff hd).2 ((Nat.div_lt_iff_lt_mul hpos).1 (Nat.lt_succ_self _))
  have hlarge : (10 : ℚ) ^ 16 ≤ ratio n d := by
    have hle : ((10 ^ 16 : Nat) : ℚ) ≤ (n / d : Nat) := by exact_mod_cast hbounds.1
    push_cast at hle
    exact hle.trans hlow
  have hreads : (readsBack m e (n / d) k || readsBack m e (n / d + 1) k) = true := by
    rw [Bool.or_eq_true, readsBack_iff, readsBack_iff]
    push_cast at hhigh
    rcases le_total (ratio n d) ((n / d : Nat) + 1 / 2) with hle | hge
    · exact .inl (roundsTo_neighbour hnormal hm hvalue hlarge (abs_le.2 ⟨by linarith, by linarith⟩))
    · refine .inr (roundsTo_neighbour hnormal hm hvalue hlarge (abs_le.2 ⟨?_, ?_⟩))
      · push_cast
        linarith
      · push_cast
        linarith
  rw [if_pos hreads]
  rfl

theorem pow_1023_le : (2 : ℚ) ^ 1023 ≤ 10 ^ 308 := by
  calc (2 : ℚ) ^ 1023 = (2 ^ 93) ^ 11 := by rw [← pow_mul]
    _ ≤ (10 ^ 28) ^ 11 := pow_le_pow_left₀ (by norm_num) (by norm_num) 11
    _ = 10 ^ 308 := by rw [← pow_mul]

theorem zpow_minExponent_ge : (10 : ℚ) ^ (-324 : Int) ≤ 2 ^ minExponent := by
  have hpow : (2 : ℚ) ^ 1074 ≤ 10 ^ 324 := by
    calc (2 : ℚ) ^ 1074 = 2 ^ 1023 * 2 ^ 51 := by rw [← pow_add]
      _ ≤ 10 ^ 308 * 10 ^ 16 := mul_le_mul pow_1023_le (by norm_num) (by positivity) (by positivity)
      _ = 10 ^ 324 := by rw [← pow_add]
  rw [minExponent, zpow_neg, zpow_neg, zpow_ofNat, zpow_ofNat]
  exact inv_anti₀ (by positivity) hpow

/-- The point of a finite number is not far from its first digit. -/
theorem pointOf_bounds (hnormal : Normal m e) (hm : m ≠ 0) :
    -324 < pointOf (fractionOf m e).1 (fractionOf m e).2 ∧ pointOf (fractionOf m e).1 (fractionOf m e).2 < 310 := by
  obtain ⟨hlow, hhigh⟩ := pointOf_spec (fractionOf_num_ne_zero e hm) (fractionOf_ne_zero m e)
  rw [ratio_fractionOf] at hlow hhigh
  have hten : (1 : ℚ) < 10 := by norm_num
  have htwo : (1 : ℚ) ≤ 2 := by norm_num
  have hone : (1 : ℚ) ≤ m := by exact_mod_cast Nat.pos_of_ne_zero hm
  have htop : (m : ℚ) < 2 ^ 53 := by exact_mod_cast hnormal.mantissa
  constructor
  · have hleast : (10 : ℚ) ^ (-324 : Int) < 10 ^ pointOf (fractionOf m e).1 (fractionOf m e).2 := by
      calc (10 : ℚ) ^ (-324 : Int) ≤ 2 ^ minExponent := zpow_minExponent_ge
        _ ≤ 2 ^ e := zpow_le_zpow_right₀ htwo hnormal.least
        _ ≤ m * 2 ^ e := le_mul_of_one_le_left (zpow_two_pos e).le hone
        _ < _ := hhigh
    exact (zpow_lt_zpow_iff_right₀ hten).1 hleast
  · have hgreatest : (10 : ℚ) ^ (pointOf (fractionOf m e).1 (fractionOf m e).2 - 1) < 10 ^ (309 : Int) := by
      calc (10 : ℚ) ^ (pointOf (fractionOf m e).1 (fractionOf m e).2 - 1) ≤ m * 2 ^ e := hlow
        _ < 2 ^ 53 * 2 ^ e := mul_lt_mul_of_pos_right htop (zpow_two_pos e)
        _ ≤ 2 ^ 53 * 2 ^ maxExponent := mul_le_mul_of_nonneg_left (zpow_le_zpow_right₀ htwo hnormal.greatest) (by norm_num)
        _ = 2 ^ 1023 * 2 := by rw [maxExponent, zpow_ofNat, ← pow_add, ← pow_succ]
        _ ≤ 10 ^ 308 * 10 := mul_le_mul pow_1023_le (by norm_num) (by norm_num) (by positivity)
        _ = 10 ^ (309 : Int) := by rw [zpow_ofNat, ← pow_succ]
    have := (zpow_lt_zpow_iff_right₀ hten).1 hgreatest
    omega

/-- The fewest digits read back, wherever the sign and the fraction come from. The point is where that of the number is,
or one place behind. -/
theorem shortest_spec (hnormal : Normal m e) (hm : m ≠ 0) :
    (shortest m e).value ≠ 0 ∧ RoundsTo ((shortest m e).value * 10 ^ ((shortest m e).point - digitCount (shortest m e).value)) m e ∧
      pointOf (fractionOf m e).1 (fractionOf m e).2 ≤ (shortest m e).point ∧
      (shortest m e).point ≤ pointOf (fractionOf m e).1 (fractionOf m e).2 + 1 := by
  have hfound : ((List.range 17).findSome? fun i => withDigits? m e (i + 1)).isSome = true :=
    List.findSome?_isSome_iff.2 ⟨16, List.mem_range.2 (by decide), isSome_withDigits?_seventeen hnormal hm⟩
  obtain ⟨D, hD⟩ := Option.isSome_iff_exists.1 hfound
  obtain ⟨i, -, hi⟩ := List.exists_of_findSome?_eq_some hD
  obtain ⟨hne, hrounds, hlow, hhigh⟩ := withDigits?_spec hm hi
  obtain ⟨hne', z, hvalue, hcount⟩ := dropZeros_spec 20 hne
  rw [shortest, hD]
  refine ⟨hne', ?_, hlow, hhigh⟩
  have hsame : (D.value : ℚ) * 10 ^ (D.point - digitCount D.value) =
      (dropZeros 20 D.value : Nat) * 10 ^ (D.point - digitCount (dropZeros 20 D.value)) := by
    have hten : (10 : ℚ) ≠ 0 := by norm_num
    have hpoint : D.point - digitCount D.value = -(z : Int) + (D.point - digitCount (dropZeros 20 D.value)) := by omega
    have hvalue' : (D.value : ℚ) = (dropZeros 20 D.value : Nat) * 10 ^ (z : Int) := by
      rw [zpow_natCast]
      exact_mod_cast hvalue
    rw [hpoint, zpow_add₀ hten, hvalue', zpow_neg]
    field_simp
  rwa [hsame] at hrounds

end Blockwright.Double
