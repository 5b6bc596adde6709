import Blockwright.Text.Raw
/-!
# Texts survive their bytes

The bytes of a text are those of its characters one after the other, and reading them gives the
text back.
-/

namespace Blockwright.Text

/-! ## The bytes of a text -/

theorem get!_eq {bs : ByteArray} {i : Nat} (h : i < bs.data.size) : bs.get! i = bs.data[i] := by
  simp only [ByteArray.get!, getElem!_pos bs.data i h]

theorem byteArray_loop (bs : ByteArray) (i : Nat) (done : List UInt8) :
    ByteArray.toList.loop bs i done = done.reverse ++ bs.data.toList.drop i := by
  fun_induction ByteArray.toList.loop bs i done with
  | case1 i done hlt ih =>
    have hi : i < bs.data.size := hlt
    have hl : i < bs.data.toList.length := hlt
    rw [ih, List.drop_eq_getElem_cons hl, get!_eq hi]
    simp
  | case2 i done hge =>
    have hi : bs.data.toList.length ≤ i := Nat.not_lt.1 hge
    rw [List.drop_eq_nil_of_le hi, List.append_nil]

theorem bytesOf_eq (s : String) : bytesOf s = s.toList.flatMap String.utf8EncodeChar := by
  rw [bytesOf, ByteArray.toList, byteArray_loop, String.toUTF8_eq_toByteArray, ← String.utf8Encode_toList]
  simp [List.utf8Encode]

theorem bytesOf_append (s t : String) : bytesOf (s ++ t) = bytesOf s ++ bytesOf t := by
  simp [bytesOf_eq]

/-! ## The character at the front -/

theorem leading_single {b : UInt8} (rest : Bytes) (h : b < 0x80) : leading b rest = (Char.ofNat b.toNat, 0) := by
  rcases rest with _ | ⟨b1, _ | ⟨b2, _ | ⟨b3, rest⟩⟩⟩ <;> simp [leading, h]

theorem leading_pair {b0 b1 : UInt8} (rest : Bytes) (h : isPair b0 b1 = true) :
    leading b0 (b1 :: rest) = (pair b0 b1, 1) := by
  have hb : ¬ b0 < 0x80 := by
    simp only [isPair, Bool.and_eq_true, decide_eq_true_eq, UInt8.le_iff_toNat_le] at h
    rw [UInt8.lt_iff_toNat_lt]
    have := h.1.1
    simp at this ⊢
    omega
  rcases rest with _ | ⟨b2, _ | ⟨b3, rest⟩⟩ <;> simp [leading, h, hb]

theorem leading_triple {b0 b1 b2 : UInt8} (rest : Bytes) (h : isTriple b0 b1 b2 = true) :
    leading b0 (b1 :: b2 :: rest) = (triple b0 b1 b2, 2) := by
  have h0 : 0xE0 ≤ b0.toNat := by
    simp only [isTriple, Bool.and_eq_true, decide_eq_true_eq, UInt8.le_iff_toNat_le] at h
    simpa using h.1.1.1
  have hb : ¬ b0 < 0x80 := by rw [UInt8.lt_iff_toNat_lt]; simp; omega
  have hp : ¬ isPair b0 b1 = true := by
    simp only [isPair, Bool.and_eq_true, decide_eq_true_eq, UInt8.le_iff_toNat_le]
    simp
    omega
  rcases rest with _ | ⟨b3, rest⟩ <;> simp [leading, h, hb, hp]

theorem leading_quadruple {b0 b1 b2 b3 : UInt8} (rest : Bytes) (h : isQuadruple b0 b1 b2 b3 = true) :
    leading b0 (b1 :: b2 :: b3 :: rest) = (quadruple b0 b1 b2 b3, 3) := by
  have h0 : 0xF0 ≤ b0.toNat := by
    simp only [isQuadruple, Bool.and_eq_true, decide_eq_true_eq, UInt8.le_iff_toNat_le] at h
    simpa using h.1.1.1.1
  have hb : ¬ b0 < 0x80 := by rw [UInt8.lt_iff_toNat_lt]; simp; omega
  have hp : ¬ isPair b0 b1 = true := by
    simp only [isPair, Bool.and_eq_true, decide_eq_true_eq, UInt8.le_iff_toNat_le]
    simp
    omega
  have ht : ¬ isTriple b0 b1 b2 = true := by
    simp only [isTriple, Bool.and_eq_true, decide_eq_true_eq, UInt8.le_iff_toNat_le]
    simp
    omega
  simp [leading, h, hb, hp, ht]

/-! ## Reading back -/

theorem toNat_byte {v : Nat} (h : v < 256) : (UInt8.ofNat v).toNat = v := by
  simpa using h

theorem leading_one {v : Nat} (rest : Bytes) (h : v ≤ 0x7f) : leading (UInt8.ofNat v) rest = (Char.ofNat v, 0) := by
  have hb : UInt8.ofNat v < 0x80 := by
    rw [UInt8.lt_iff_toNat_lt, toNat_byte (by omega)]
    exact Nat.lt_of_le_of_lt h (by decide)
  rw [leading_single rest hb, toNat_byte (by omega)]

theorem leading_two {v : Nat} (rest : Bytes) (h : 0x7f < v) (h' : v ≤ 0x7ff) :
    leading (UInt8.ofNat (v / 64 % 32 + 192)) (UInt8.ofNat (v % 64 + 128) :: rest) = (Char.ofNat v, 1) := by
  have h0 : (UInt8.ofNat (v / 64 % 32 + 192)).toNat = v / 64 % 32 + 192 := toNat_byte (by omega)
  have h1 : (UInt8.ofNat (v % 64 + 128)).toNat = v % 64 + 128 := toNat_byte (by omega)
  rw [leading_pair rest, pair, tail6, h0, h1]
  · congr 2; omega
  · simp only [isPair, isContinuation, Bool.and_eq_true, decide_eq_true_eq, UInt8.le_iff_toNat_le, h0, h1,
      UInt8.toNat_ofNat]
    omega

theorem leading_three {v : Nat} (rest : Bytes) (h : 0x7ff < v) (h' : v ≤ 0xffff) (hs : v < 0xD800 ∨ 0xDFFF < v) :
    leading (UInt8.ofNat (v / 4096 % 16 + 224))
      (UInt8.ofNat (v / 64 % 64 + 128) :: UInt8.ofNat (v % 64 + 128) :: rest) = (Char.ofNat v, 2) := by
  have h0 : (UInt8.ofNat (v / 4096 % 16 + 224)).toNat = v / 4096 % 16 + 224 := toNat_byte (by omega)
  have h1 : (UInt8.ofNat (v / 64 % 64 + 128)).toNat = v / 64 % 64 + 128 := toNat_byte (by omega)
  have h2 : (UInt8.ofNat (v % 64 + 128)).toNat = v % 64 + 128 := toNat_byte (by omega)
  rw [leading_triple rest, triple, tail6, tail6, h0, h1, h2]
  · congr 2; omega
  · simp only [isTriple, isSecondOfThree, isContinuation, Bool.and_eq_true, decide_eq_true_eq, beq_iff_eq,
      UInt8.le_iff_toNat_le, ← UInt8.toNat_inj, h0, h1, h2, UInt8.toNat_ofNat]
    refine ⟨⟨by omega, ?_⟩, by omega⟩
    -- the second byte is bounded for the two first bytes at the edges
    split
    · simp; omega
    · split <;> simp <;> omega

theorem leading_four {v : Nat} (rest : Bytes) (h : 0xffff < v) (h' : v < 0x110000) :
    leading (UInt8.ofNat (v / 262144 % 8 + 240))
      (UInt8.ofNat (v / 4096 % 64 + 128) :: UInt8.ofNat (v / 64 % 64 + 128) :: UInt8.ofNat (v % 64 + 128) :: rest) =
      (Char.ofNat v, 3) := by
  have h0 : (UInt8.ofNat (v / 262144 % 8 + 240)).toNat = v / 262144 % 8 + 240 := toNat_byte (by omega)
  have h1 : (UInt8.ofNat (v / 4096 % 64 + 128)).toNat = v / 4096 % 64 + 128 := toNat_byte (by omega)
  have h2 : (UInt8.ofNat (v / 64 % 64 + 128)).toNat = v / 64 % 64 + 128 := toNat_byte (by omega)
  have h3 : (UInt8.ofNat (v % 64 + 128)).toNat = v % 64 + 128 := toNat_byte (by omega)
  rw [leading_quadruple rest, quadruple, tail6, tail6, tail6, h0, h1, h2, h3]
  · congr 2; omega
  · simp only [isQuadruple, isSecondOfFour, isContinuation, Bool.and_eq_true, decide_eq_true_eq, beq_iff_eq,
      UInt8.le_iff_toNat_le, ← UInt8.toNat_inj, h0, h1, h2, h3, UInt8.toNat_ofNat]
    refine ⟨⟨⟨by omega, ?_⟩, by omega⟩, by omega⟩
    split
    · simp; omega
    · split <;> simp <;> omega

/-- The bytes of a character, with whatever follows, are read as the character. -/
theorem decodeAfter_encode (c : Char) (rest : Bytes) :
    decodeAfter 0 (String.utf8EncodeChar c ++ rest) = c :: decodeAfter 0 rest := by
  have hv : c.val.toNat < 0xD800 ∨ 0xDFFF < c.val.toNat ∧ c.val.toNat < 0x110000 := c.valid
  have hc : Char.ofNat c.val.toNat = c := Char.ofNat_toNat c
  unfold String.utf8EncodeChar
  dsimp only
  -- one case for each length of the code
  split
  · simp only [List.cons_append, List.nil_append, decodeAfter, leading_one rest ‹_›, hc]
  · split
    · simp only [List.cons_append, List.nil_append, decodeAfter, leading_two rest (Nat.not_le.1 ‹_›) ‹_›, hc]
    · split
      · simp only [List.cons_append, List.nil_append, decodeAfter,
          leading_three rest (Nat.not_le.1 ‹_›) ‹_› (by omega), hc]
      · simp only [List.cons_append, List.nil_append, decodeAfter,
          leading_four rest (Nat.not_le.1 ‹_›) (by omega), hc]

theorem decodeLossy_encode (cs : List Char) : decodeLossy (cs.flatMap String.utf8EncodeChar) = cs := by
  induction cs with
  | nil => rfl
  | cons c cs ih =>
    rw [List.flatMap_cons, decodeLossy, decodeAfter_encode]
    exact congrArg (c :: ·) ih

/-- A text is what its bytes spell. -/
theorem ofBytes_bytesOf (s : String) : ofBytes (bytesOf s) = s := by
  rw [ofBytes, bytesOf_eq, decodeLossy_encode, String.ofList_toList]

end Blockwright.Text

namespace Blockwright.RawText

@[simp] theorem text_ofString (s : String) : (ofString s).text = s := Text.ofBytes_bytesOf s

theorem ofString_append (s t : String) : ofString (s ++ t) = ofString s ++ ofString t :=
  congrArg RawText.mk (Text.bytesOf_append s t)

@[simp] theorem ofString_inj {s t : String} : ofString s = ofString t ↔ s = t := by
  refine ⟨fun h => ?_, congrArg ofString⟩
  rw [← text_ofString s, h, text_ofString]

end Blockwright.RawText
