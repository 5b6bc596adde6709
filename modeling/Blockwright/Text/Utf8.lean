/-!
# Bytes and characters

A document arrives as bytes that need not be well formed. `decodeLossy` reads them as
characters and puts U+FFFD in place of each byte that is part of no character.
-/

namespace Blockwright

/-- The bytes of a document. -/
abbrev Bytes := List UInt8

namespace Text

/-- The character that stands for a byte which is part of no character. -/
def replacement : Char := '\uFFFD'

/-- The bytes of a text, in the usual encoding of one to four bytes a character. -/
def bytesOf (s : String) : Bytes := s.toUTF8.toList

/-- A byte that continues a character. -/
def isContinuation (b : UInt8) : Bool := 0x80 ≤ b && b ≤ 0xBF

/-- The low six bits of a continuation byte. -/
def tail6 (b : UInt8) : Nat := b.toNat % 64

/-- The second byte that may follow a first byte of three, so that no character has two
encodings and no surrogate has one. -/
def isSecondOfThree (b0 b1 : UInt8) : Bool :=
  if b0 == 0xE0 then 0xA0 ≤ b1 && b1 ≤ 0xBF
  else if b0 == 0xED then 0x80 ≤ b1 && b1 ≤ 0x9F
  else isContinuation b1

/-- The second byte that may follow a first byte of four, so that no character has two
encodings and none lies past U+10FFFF. -/
def isSecondOfFour (b0 b1 : UInt8) : Bool :=
  if b0 == 0xF0 then 0x90 ≤ b1 && b1 ≤ 0xBF
  else if b0 == 0xF4 then 0x80 ≤ b1 && b1 ≤ 0x8F
  else isContinuation b1

/-- Two bytes that make one character. -/
def isPair (b0 b1 : UInt8) : Bool := 0xC2 ≤ b0 && b0 ≤ 0xDF && isContinuation b1

/-- The character of two bytes. -/
def pair (b0 b1 : UInt8) : Char := Char.ofNat (b0.toNat % 32 * 64 + tail6 b1)

/-- Three bytes that make one character. -/
def isTriple (b0 b1 b2 : UInt8) : Bool :=
  0xE0 ≤ b0 && b0 ≤ 0xEF && isSecondOfThree b0 b1 && isContinuation b2

/-- The character of three bytes. -/
def triple (b0 b1 b2 : UInt8) : Char :=
  Char.ofNat ((b0.toNat % 16 * 64 + tail6 b1) * 64 + tail6 b2)

/-- Four bytes that make one character. -/
def isQuadruple (b0 b1 b2 b3 : UInt8) : Bool :=
  0xF0 ≤ b0 && b0 ≤ 0xF4 && isSecondOfFour b0 b1 && isContinuation b2 && isContinuation b3

/-- The character of four bytes. -/
def quadruple (b0 b1 b2 b3 : UInt8) : Char :=
  Char.ofNat (((b0.toNat % 8 * 64 + tail6 b1) * 64 + tail6 b2) * 64 + tail6 b3)

/-- The character that starts at `b0`, and how many bytes after `b0` belong to it. -/
def leading (b0 : UInt8) : Bytes → Char × Nat
  | b1 :: b2 :: b3 :: _ =>
    if b0 < 0x80 then (Char.ofNat b0.toNat, 0)
    else if isPair b0 b1 then (pair b0 b1, 1)
    else if isTriple b0 b1 b2 then (triple b0 b1 b2, 2)
    else if isQuadruple b0 b1 b2 b3 then (quadruple b0 b1 b2 b3, 3)
    else (replacement, 0)
  | [b1, b2] =>
    if b0 < 0x80 then (Char.ofNat b0.toNat, 0)
    else if isPair b0 b1 then (pair b0 b1, 1)
    else if isTriple b0 b1 b2 then (triple b0 b1 b2, 2)
    else (replacement, 0)
  | [b1] =>
    if b0 < 0x80 then (Char.ofNat b0.toNat, 0)
    else if isPair b0 b1 then (pair b0 b1, 1)
    else (replacement, 0)
  | [] => if b0 < 0x80 then (Char.ofNat b0.toNat, 0) else (replacement, 0)

/-- Skips the given number of bytes and reads the others as characters. -/
def decodeAfter : Nat → Bytes → List Char
  | _, [] => []
  | skip + 1, _ :: rest => decodeAfter skip rest
  | 0, b :: rest => (leading b rest).1 :: decodeAfter (leading b rest).2 rest

/-- Reads bytes as characters; a byte that is part of no character becomes U+FFFD. -/
def decodeLossy (bytes : Bytes) : List Char := decodeAfter 0 bytes

/-- The text that bytes spell, with U+FFFD for what is no character. -/
def ofBytes (bytes : Bytes) : String := String.ofList (decodeLossy bytes)

end Text
end Blockwright
