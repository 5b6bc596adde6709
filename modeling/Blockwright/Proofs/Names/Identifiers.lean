import Blockwright.Names.Registry
/-!
# Every byte string has a legal identifier

`Identifier.ofText` gives a legal identifier for any bytes, well formed or not, and a number
written behind a legal identifier leaves it one.
-/

namespace Blockwright

namespace Identifier

/-- A legal identifier: a letter or an underscore, then letters, digits and underscores. -/
def isLegal (s : String) : Bool :=
  match s.toList with
  | [] => false
  | c :: rest => (Text.isLetter c || c == '_') && rest.all Text.isWordChar

/-! ## Characters -/

theorem isWordChar_of_isDigit {c : Char} (h : Text.isDigit c = true) : Text.isWordChar c = true := by
  simp [Text.isWordChar, h]

theorem isWordChar_upperHexDigit : ∀ n < 16, Text.isWordChar (Text.upperHexDigit n) = true := by
  decide

theorem isDigit_of_mem_toDigits {c : Char} {n : Nat} (h : c ∈ Nat.toDigits 10 n) : Text.isDigit c = true := by
  have hd := Nat.isDigit_of_mem_toDigits (by decide) (by decide) h
  simpa [Text.isDigit, Char.isDigit, Char.le_def] using hd

theorem isDigit_of_mem_ofNat {c : Char} {n : Nat} (h : c ∈ (Text.ofNat n).toList) : Text.isDigit c = true := by
  rw [Text.ofNat, String.toList_ofList] at h
  exact isDigit_of_mem_toDigits h

/-! ## Bytes -/

theorem isWordChar_of_mem_ofByte {b : UInt8} {c : Char} (h : c ∈ ofByte b) : Text.isWordChar c = true := by
  have hb := b.toNat_lt
  unfold ofByte at h
  dsimp only at h
  split at h
  · simp_all
  · split at h
    · obtain rfl := List.mem_singleton.1 h; rfl
    · split at h
      · obtain rfl := List.mem_singleton.1 h; rfl
      · simp only [List.mem_cons, List.not_mem_nil, or_false] at h
        rcases h with rfl | rfl | rfl
        · rfl
        · exact isWordChar_upperHexDigit _ (by omega)
        · exact isWordChar_upperHexDigit _ (by omega)

theorem isWordChar_of_mem_flatMap {bytes : Bytes} : ∀ c ∈ bytes.flatMap ofByte, Text.isWordChar c = true := by
  intro c hc
  obtain ⟨b, -, hb⟩ := List.mem_flatMap.1 hc
  exact isWordChar_of_mem_ofByte hb

/-! ## Texts -/

theorem isLegal_ofText (t : RawText) : isLegal (ofText t) = true := by
  have hall : ∀ c ∈ t.bytes.flatMap ofByte, Text.isWordChar c = true := isWordChar_of_mem_flatMap
  rw [isLegal, ofText, String.toList_ofList, ofBytes]
  cases hcs : t.bytes.flatMap ofByte with
  | nil => decide
  | cons c cs =>
    rw [hcs] at hall
    have hrest : (c :: cs).all Text.isWordChar = true := List.all_eq_true.2 hall
    by_cases hd : Text.isDigit c = true
    · simp only [hd, if_true]
      exact hrest
    · simp only [hd, if_false, Bool.false_eq_true]
      have hc := hall c List.mem_cons_self
      simp only [Text.isWordChar, hd, Bool.or_false] at hc
      rw [hc, Bool.true_and]
      exact List.all_eq_true.2 fun x hx => hall x (List.mem_cons_of_mem _ hx)

theorem isLegal_append {s t : String} (hs : isLegal s = true) (ht : ∀ c ∈ t.toList, Text.isWordChar c = true) :
    isLegal (s ++ t) = true := by
  unfold isLegal at hs ⊢
  rw [String.toList_append]
  cases h : s.toList with
  | nil => simp [h] at hs
  | cons c cs =>
    rw [h] at hs
    simp only [Bool.and_eq_true] at hs
    simp only [List.cons_append, List.all_append, hs.1, hs.2, Bool.true_and]
    exact List.all_eq_true.2 ht

/-- A number behind a legal identifier. -/
theorem isLegal_numbered {s : String} (n : Nat) (hs : isLegal s = true) : isLegal (s ++ Text.ofNat n) = true :=
  isLegal_append hs fun _ hc => isWordChar_of_isDigit (isDigit_of_mem_ofNat hc)

theorem ne_empty_of_isLegal {s : String} (h : isLegal s = true) : s ≠ "" := by
  rintro rfl
  exact absurd h (by decide)

theorem isWordChar_of_mem {s : String} (h : isLegal s = true) : ∀ c ∈ s.toList, Text.isWordChar c = true := by
  unfold isLegal at h
  cases hs : s.toList with
  | nil => simp
  | cons c cs =>
    rw [hs] at h
    simp only [Bool.and_eq_true, Bool.or_eq_true] at h
    intro d hd
    rcases List.mem_cons.1 hd with rfl | hd
    · rcases h.1 with hl | hu
      · simp [Text.isWordChar, hl]
      · simp [Text.isWordChar, hu]
    · exact List.all_eq_true.1 h.2 d hd

end Identifier
end Blockwright
