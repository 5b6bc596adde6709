import Mathlib.Tactic.IntervalCases
import Mathlib.Tactic.Ring
import Mathlib.Tactic.SplitIfs
import Blockwright.Json.Parser
import Blockwright.Json.Printer
import Blockwright.Proofs.Text.Utf8
/-!
# Strings survive JSON

A text that is written as a JSON string is read back as the same text. Each character of the text
is written as characters that are read back on their own, whatever follows them.
-/

namespace Blockwright

/-! ## Hexadecimal digits -/

namespace Text

theorem hexValue?_hexDigit {n : Nat} (h : n < 16) : hexValue? (hexDigit n) = some n := by
  interval_cases n <;> decide

theorem mem_hexPadded {c : Char} {width n : Nat} (h : c ∈ hexPadded width n) : ∃ m < 16, c = hexDigit m := by
  induction width generalizing n with
  | zero => cases h
  | succ width ih =>
    rcases List.mem_append.1 h with h | h
    · exact ih h
    · exact ⟨n % 16, Nat.mod_lt _ (by decide), List.mem_singleton.1 h⟩

theorem foldlM_hexPadded (width n seen : Nat) :
    (hexPadded width n).foldlM (fun n c => (hexValue? c).map (n * 16 + ·)) seen
      = some (seen * 16 ^ width + n % 16 ^ width) := by
  induction width generalizing n with
  | zero => simp [hexPadded, Nat.mod_one]
  | succ width ih =>
    have hdigit : n % 16 ^ (width + 1) = n / 16 % 16 ^ width * 16 + n % 16 := by
      rw [Nat.pow_succ, Nat.mul_comm, Nat.mod_mul]
      omega
    rw [hexPadded, List.foldlM_append, ih]
    simp only [Option.bind_eq_bind, Option.bind_some, List.foldlM_cons, List.foldlM_nil,
      hexValue?_hexDigit (Nat.mod_lt n (by decide : 0 < 16)), Option.map_some]
    rw [hdigit, Nat.pow_succ]
    congr 1
    ring

theorem hexNumber?_hexPadded {width n : Nat} (h : n < 16 ^ width) : hexNumber? (hexPadded width n) = some n := by
  rw [hexNumber?, foldlM_hexPadded, Nat.zero_mul, Nat.zero_add, Nat.mod_eq_of_lt h]

end Text

namespace Json

/-! ## Escapes -/

theorem unescape?_short {e c : Char} (he : e ≠ 'u') (hc : escapeOf? e = some c) (rest : List Char) :
    unescape? none ('\\' :: e :: rest) = (unescape? none rest).map (c :: ·) := by
  rw [unescape?]
  · rw [hc]
    cases unescape? none rest <;> rfl
  · intro _ _ _ _ _ hu
    exact absurd hu he

theorem unescape?_plain {c : Char} (hc : c ≠ '\\') (rest : List Char) :
    unescape? none (c :: rest) = (unescape? none rest).map (c :: ·) := by
  rw [unescape?]
  · rw [if_neg hc]
    cases unescape? none rest <;> rfl
  · intro _ _ _ _ _ h
    exact absurd h hc
  · intro _ _ h
    exact absurd h hc

/-- A code below the surrogates. -/
theorem unescape?_code {n : Nat} (hn : n < 0xD800) (rest : List Char) :
    unescape? none ('\\' :: 'u' :: Text.hexPadded 4 n ++ rest) =
      (unescape? none rest).map (Char.ofNat n :: ·) := by
  have hread : Text.hexNumber? (Text.hexPadded 4 n) = some n := Text.hexNumber?_hexPadded (by omega)
  have hhigh : isHighSurrogate n = false := by simp [isHighSurrogate]; omega
  have hlow : isLowSurrogate n = false := by simp [isLowSurrogate]; omega
  simp only [Text.hexPadded, List.nil_append, List.cons_append] at hread ⊢
  rw [unescape?, hread]
  simp only [Option.bind_eq_bind, Option.bind_some, hhigh, codeChar, hlow]
  cases unescape? none rest <;> rfl

theorem unescape?_escapeChar (c : Char) (rest : List Char) :
    unescape? none (escapeChar c ++ rest) = (unescape? none rest).map (c :: ·) := by
  unfold escapeChar
  split_ifs with hquote hback hfeed hreturn htab hcode
  · subst hquote; exact unescape?_short (by decide) rfl rest
  · subst hback; exact unescape?_short (by decide) rfl rest
  · subst hfeed; exact unescape?_short (by decide) rfl rest
  · subst hreturn; exact unescape?_short (by decide) rfl rest
  · subst htab; exact unescape?_short (by decide) rfl rest
  · have hn : c.toNat < 0xD800 := by
      simp only [Bool.or_eq_true, decide_eq_true_eq] at hcode
      rcases hcode with ((((hc | rfl) | rfl) | rfl) | rfl) | rfl
      · have hspace : c.toNat < ' '.toNat := hc
        exact hspace.trans (by decide)
      all_goals decide
    have hself : Char.ofNat c.toNat = c := Char.ofNat_toNat c
    rw [unescape?_code hn rest, hself]
  · exact unescape?_plain hback rest

theorem unescape?_flatMap (cs : List Char) : unescape? none (cs.flatMap escapeChar) = some cs := by
  induction cs with
  | nil => rfl
  | cons c cs ih => rw [List.flatMap_cons, unescape?_escapeChar, ih, Option.map_some]

/-! ## Where a string ends -/

/-- A byte that stands for itself in a string. -/
def isPlainByte (b : UInt8) : Bool := b != 0x22 && b != 0x5C && !(b < 0x20)

theorem splitQuoted?_cons {b : UInt8} (h : isPlainByte b = true) (rest : Bytes) :
    splitQuoted? (b :: rest) = (splitQuoted? rest).map fun e => (b :: e.1, e.2) := by
  simp only [isPlainByte, Bool.and_eq_true, bne_iff_ne, Bool.not_eq_true', decide_eq_false_iff_not] at h
  obtain ⟨⟨hquote, hback⟩, hcontrol⟩ := h
  rw [splitQuoted?]
  · simp only [beq_iff_eq, hquote, if_false, hcontrol]
  · intro _ _ hb
    exact absurd hb hback

theorem splitQuoted?_plain {bytes : Bytes} (h : ∀ b ∈ bytes, isPlainByte b = true) (rest : Bytes) :
    splitQuoted? (bytes ++ rest) = (splitQuoted? rest).map fun e => (bytes ++ e.1, e.2) := by
  induction bytes with
  | nil => simp
  | cons b bytes ih =>
    rw [List.cons_append, splitQuoted?_cons (h b List.mem_cons_self), ih fun x hx => h x (List.mem_cons_of_mem _ hx),
      Option.map_map]
    rfl

theorem isPlainByte_ofNat {n : Nat} (h : 0x80 ≤ n) (h' : n < 256) : isPlainByte (UInt8.ofNat n) = true := by
  have hn : (UInt8.ofNat n).toNat = n := Text.toNat_byte h'
  simp only [isPlainByte, Bool.and_eq_true, bne_iff_ne, Bool.not_eq_true', decide_eq_false_iff_not, ne_eq,
    ← UInt8.toNat_inj, UInt8.lt_iff_toNat_lt, hn, UInt8.toNat_ofNat]
  omega

/-- A character that needs no escape is made of bytes that need none. -/
theorem isPlainByte_encode {c : Char} (hquote : c ≠ '"') (hback : c ≠ '\\') (hcontrol : ¬ c < ' ') :
    ∀ b ∈ String.utf8EncodeChar c, isPlainByte b = true := by
  have hne : ∀ d : Char, c ≠ d → c.val.toNat ≠ d.val.toNat := fun d hcd he => hcd (Char.ext (UInt32.toNat_inj.1 he))
  have hq : c.val.toNat ≠ 34 := hne '"' hquote
  have hb : c.val.toNat ≠ 92 := hne '\\' hback
  have hs : ¬ c.val.toNat < 32 := hcontrol
  unfold String.utf8EncodeChar
  dsimp only
  split_ifs with hone htwo hthree <;> intro b hb <;> simp only [List.mem_cons, List.not_mem_nil, or_false] at hb
  · have hn : (UInt8.ofNat c.val.toNat).toNat = c.val.toNat := Text.toNat_byte (by omega)
    simp only [hb, isPlainByte, Bool.and_eq_true, bne_iff_ne, Bool.not_eq_true', decide_eq_false_iff_not, ne_eq,
      ← UInt8.toNat_inj, UInt8.lt_iff_toNat_lt, hn, UInt8.toNat_ofNat]
    omega
  · rcases hb with rfl | rfl <;> exact isPlainByte_ofNat (by omega) (by omega)
  · rcases hb with rfl | rfl | rfl <;> exact isPlainByte_ofNat (by omega) (by omega)
  · rcases hb with rfl | rfl | rfl | rfl <;> exact isPlainByte_ofNat (by omega) (by omega)

/-- The bytes of characters. -/
def encode (cs : List Char) : Bytes := cs.flatMap String.utf8EncodeChar

theorem splitQuoted?_escape (b : UInt8) (rest : Bytes) :
    splitQuoted? (0x5C :: b :: rest) = (splitQuoted? rest).map fun e => (0x5C :: b :: e.1, e.2) := by
  rw [splitQuoted?]

theorem isPlainByte_hexPadded (width n : Nat) : ∀ b ∈ encode (Text.hexPadded width n), isPlainByte b = true := by
  intro b hb
  obtain ⟨c, hc, hb⟩ := List.mem_flatMap.1 hb
  obtain ⟨m, hm, rfl⟩ := Text.mem_hexPadded hc
  have hplain : Text.hexDigit m ≠ '"' ∧ Text.hexDigit m ≠ '\\' ∧ ¬ Text.hexDigit m < ' ' := by
    interval_cases m <;> decide
  exact isPlainByte_encode hplain.1 hplain.2.1 hplain.2.2 b hb

theorem splitQuoted?_escapeChar (c : Char) (rest : Bytes) :
    splitQuoted? (encode (escapeChar c) ++ rest) =
      (splitQuoted? rest).map fun e => (encode (escapeChar c) ++ e.1, e.2) := by
  unfold escapeChar
  split_ifs with hquote hback hfeed hreturn htab hcode
  · exact splitQuoted?_escape 0x22 rest
  · exact splitQuoted?_escape 0x5C rest
  · exact splitQuoted?_escape 0x6E rest
  · exact splitQuoted?_escape 0x72 rest
  · exact splitQuoted?_escape 0x74 rest
  · have hescape : encode ('\\' :: 'u' :: Text.hexPadded 4 c.toNat)
        = 0x5C :: 0x75 :: encode (Text.hexPadded 4 c.toNat) := rfl
    rw [hescape, List.cons_append, List.cons_append, splitQuoted?_escape,
      splitQuoted?_plain (isPlainByte_hexPadded 4 c.toNat), Option.map_map]
    rfl
  · have hcontrol : ¬ c < ' ' := fun h => hcode (by simp [h])
    have hbytes : encode [c] = String.utf8EncodeChar c := List.append_nil _
    rw [hbytes]
    exact splitQuoted?_plain (isPlainByte_encode hquote hback hcontrol) rest

/-- A quoted text ends at the quote behind it. -/
theorem splitQuoted?_quoted (cs : List Char) (rest : Bytes) :
    splitQuoted? (encode (cs.flatMap escapeChar) ++ 0x22 :: rest) = some (encode (cs.flatMap escapeChar), rest) := by
  induction cs with
  | nil => rfl
  | cons c cs ih =>
    have hfirst : encode ((c :: cs).flatMap escapeChar) = encode (escapeChar c) ++ encode (cs.flatMap escapeChar) := by
      simp [encode]
    rw [hfirst, List.append_assoc, splitQuoted?_escapeChar, ih, Option.map_some]

/-! ## Documents -/

theorem string?_quoted (s : String) (rest : Bytes) :
    string? (encode (s.toList.flatMap escapeChar) ++ 0x22 :: rest) = some (s, rest) := by
  rw [string?, splitQuoted?_quoted]
  simp only [Option.bind_eq_bind, Option.bind_some]
  rw [encode, Text.decodeLossy_encode, unescape?_flatMap]
  simp

theorem bytesOf_quoteString (s : String) :
    Text.bytesOf (quoteString s) = 0x22 :: (encode (s.toList.flatMap escapeChar) ++ [0x22]) := by
  rw [Text.bytesOf_eq, quoteString, String.toList_ofList, List.flatMap_cons, List.flatMap_append]
  rfl

/-- A text that is written as JSON is read back. -/
theorem parse?_quoteString (s : String) : parse? (Text.bytesOf (quoteString s)) = some (.str s) := by
  rw [bytesOf_quoteString, parse?, parseFront?]
  have hskip : skipSpace (0x22 :: (encode (s.toList.flatMap escapeChar) ++ [0x22]))
    = 0x22 :: (encode (s.toList.flatMap escapeChar) ++ [0x22]) := rfl
  rw [hskip, value?, string?_quoted]
  rfl

end Json
end Blockwright
