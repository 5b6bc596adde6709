import Blockwright.Text.Utf8
/-!
# Bytes as digits

Bytes written with hexadecimal digits, and with the digits of Base64.
-/

/-!
## Hexadecimal digits

Bytes written as pairs of digits, and digits read back.
-/

namespace Blockwright.Text

/-- The digit of a number below sixteen, in lower case. -/
def hexDigit (n : Nat) : Char :=
  if n < 10 then Char.ofNat (48 + n) else Char.ofNat (87 + n % 16)

/-- The digit of a number below sixteen, in upper case. -/
def upperHexDigit (n : Nat) : Char := if n < 10 then Char.ofNat (48 + n) else Char.ofNat (55 + n)

/-- The value of a hexadecimal digit of either case. -/
def hexValue? (c : Char) : Option Nat :=
  if '0' ≤ c && c ≤ '9' then some (c.toNat - 48)
  else if 'a' ≤ c && c ≤ 'f' then some (c.toNat - 87)
  else if 'A' ≤ c && c ≤ 'F' then some (c.toNat - 55)
  else none

/-- A number read from hexadecimal digits, most significant first. -/
def hexNumber? (cs : List Char) : Option Nat :=
  cs.foldlM (fun n c => (hexValue? c).map (n * 16 + ·)) 0

/-- The last `width` hexadecimal digits of a number, in lower case. -/
def hexPadded (width n : Nat) : List Char :=
  match width with
  | 0 => []
  | w + 1 => hexPadded w (n / 16) ++ [hexDigit (n % 16)]

/-- Bytes as pairs of lower-case digits. -/
def hexOfBytes (bytes : Bytes) : String :=
  String.ofList (bytes.flatMap fun b => hexPadded 2 b.toNat)

/-- Bytes read from pairs of digits; `none` for an odd count or a character that is no digit. -/
def bytesOfHex? : List Char → Option Bytes
  | [] => some []
  | [_] => none
  | a :: b :: rest => do
    let hi ← hexValue? a
    let lo ← hexValue? b
    let more ← bytesOfHex? rest
    return UInt8.ofNat (hi * 16 + lo) :: more

end Blockwright.Text

/-!
## Base64 for addresses

Bytes written six bits a character, with `-` and `_` as the last two digits and without padding.
-/

namespace Blockwright.Text

/-- The value of a character, if it is a digit. -/
def base64Value? (c : Char) : Option Nat :=
  if 'A' ≤ c && c ≤ 'Z' then some (c.toNat - 65)
  else if 'a' ≤ c && c ≤ 'z' then some (c.toNat - 71)
  else if '0' ≤ c && c ≤ '9' then some (c.toNat + 4)
  else if c = '-' then some 62
  else if c = '_' then some 63
  else none

/-- The digit of a value below sixty-four. -/
def base64Digit (n : Nat) : Char :=
  if n < 26 then Char.ofNat (65 + n)
  else if n < 52 then Char.ofNat (71 + n)
  else if n < 62 then Char.ofNat (n - 4)
  else if n = 62 then '-'
  else '_'

/-- The bytes of digits. Four digits make three bytes; two or three at the end make one or two,
and what their last digit has left over is dropped. -/
def base64Bytes? : List Nat → Option Bytes
  | [] => some []
  | [_] => none
  | [a, b] => some [UInt8.ofNat (a * 4 + b / 16)]
  | [a, b, c] => some [UInt8.ofNat (a * 4 + b / 16), UInt8.ofNat (b * 16 + c / 4)]
  | a :: b :: c :: d :: rest => do
    let more ← base64Bytes? rest
    return UInt8.ofNat (a * 4 + b / 16) :: UInt8.ofNat (b * 16 + c / 4)
      :: UInt8.ofNat (c * 64 + d) :: more

/-- Reads the bytes that a text spells. -/
def ofBase64? (s : String) : Option Bytes := do
  base64Bytes? (← s.toList.mapM base64Value?)

/-- The digits of bytes. -/
def base64Digits : Bytes → List Nat
  | [] => []
  | [a] => [a.toNat / 4, a.toNat % 4 * 16]
  | [a, b] => [a.toNat / 4, a.toNat % 4 * 16 + b.toNat / 16, b.toNat % 16 * 4]
  | a :: b :: c :: rest =>
    [a.toNat / 4, a.toNat % 4 * 16 + b.toNat / 16, b.toNat % 16 * 4 + c.toNat / 64,
      c.toNat % 64] ++ base64Digits rest

/-- The text of bytes. -/
def toBase64 (bytes : Bytes) : String := String.ofList ((base64Digits bytes).map base64Digit)

end Blockwright.Text
