import Blockwright.Number.Whole
import Blockwright.Proofs.Names.Identifiers
/-!
# Whole numbers in decimal digits

The digits of a natural number spell it, so they read back as the number as long as it fits into
64 bits, and two numbers have different digits.
-/

namespace Blockwright

namespace Text

theorem digitsValue_toDigits (n : Nat) : digitsValue (Nat.toDigits 10 n) = n := by
  have hread : digitsValue (Nat.toDigits 10 n) = Nat.ofDigitChars 10 (Nat.toDigits 10 n) 0 := by
    unfold digitsValue Nat.ofDigitChars
    congr 1
    funext k c
    rw [Nat.mul_comm]
    rfl
  rw [hread, Nat.ofDigitChars_ten_toDigits]

theorem ofNat_injective : Function.Injective ofNat := by
  intro n m h
  have hdigits : Nat.toDigits 10 n = Nat.toDigits 10 m := String.ofList_injective h
  rw [← digitsValue_toDigits n, hdigits, digitsValue_toDigits]

theorem dropStart?_append (start rest : List Char) : dropStart? start (start ++ rest) = some rest := by
  rw [dropStart?, if_pos (List.isPrefixOf_iff_prefix.2 (List.prefix_append start rest)), List.drop_left]

end Text

namespace Whole

theorem wrap_of_mem {n : Int} (hleast : least ≤ n) (hgreatest : n ≤ greatest) : wrap n = n := by
  unfold least at hleast
  unfold greatest at hgreatest
  exact Int.bmod_eq_of_le (by omega) (by omega)

/-- Digits without a sign are read as they are. -/
theorem ofText?_ofNat {n : Nat} (h : (n : Int) ≤ greatest) : ofText? (Text.ofNat n) = some (n : Int) := by
  have hdigits : ∀ c ∈ Nat.toDigits 10 n, Text.isDigit c = true := fun c => Identifier.isDigit_of_mem_toDigits
  have hne : Nat.toDigits 10 n ≠ [] := Nat.toDigits_ne_nil
  have hleast : least ≤ (n : Int) := by unfold least; omega
  rw [ofText?, Text.ofNat, String.toList_ofList]
  split
  rename_i negative digits hread
  split at hread
  · rename_i rest hrest
    exact absurd (hdigits '-' (hrest ▸ List.mem_cons_self)) (by decide)
  · rename_i rest hrest
    exact absurd (hdigits '+' (hrest ▸ List.mem_cons_self)) (by decide)
  · cases hread
    simpa [hne, Text.digitsValue_toDigits, hleast, h] using hdigits

end Whole
end Blockwright
