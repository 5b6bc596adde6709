import Blockwright.Text.Encoding
import Blockwright.Text.Printable
/-!
# Texts as a document spells them

A value that is kept as the document spells it may hold bytes that are part of no character.
Answers show such a text with U+FFFD in their place, but two texts are the same only when their
bytes are, and names and messages are made from the bytes.
-/

/-!
## Quoted text in messages

Messages show a user's text between double quotes, with an escape for every character that
cannot be shown as it is.
-/

namespace Blockwright.Text

/-- The characters that stand for one character between double quotes. -/
def escapeChar (c : Char) : List Char :=
  if c = '"' then ['\\', '"']
  else if c = '\\' then ['\\', '\\']
  else if isPrintable c then [c]
  else if c = '\x07' then ['\\', 'a']
  else if c = '\x08' then ['\\', 'b']
  else if c = '\x0c' then ['\\', 'f']
  else if c = '\n' then ['\\', 'n']
  else if c = '\r' then ['\\', 'r']
  else if c = '\t' then ['\\', 't']
  else if c = '\x0b' then ['\\', 'v']
  else if c < ' ' || c = '\x7f' then '\\' :: 'x' :: hexPadded 2 c.toNat
  else if c.toNat < 0x10000 then '\\' :: 'u' :: hexPadded 4 c.toNat
  else '\\' :: 'U' :: hexPadded 8 c.toNat

/-- A text between double quotes, as messages show it. -/
def escaped (s : String) : String :=
  String.ofList ('"' :: (s.toList.flatMap escapeChar ++ ['"']))

/-- Bytes as messages show them: characters as in a text, and escapes for bytes that are part of
no character. The first argument counts bytes to skip. -/
def escapeBytesFrom : Nat → Bytes → List Char
  | _, [] => []
  | skip + 1, _ :: rest => escapeBytesFrom skip rest
  | 0, b :: rest =>
    let (c, more) := leading b rest
    (if 0x80 ≤ b && more = 0 then '\\' :: 'x' :: hexPadded 2 b.toNat else escapeChar c)
      ++ escapeBytesFrom more rest

/-- Bytes between double quotes, as messages show them. -/
def escapedBytes (bytes : Bytes) : String :=
  String.ofList ('"' :: (escapeBytesFrom 0 bytes ++ ['"']))

end Blockwright.Text

/-! ## Byte strings -/

namespace Blockwright

/-- A text as its bytes, which need not be well formed. -/
structure RawText where
  bytes : Bytes
deriving DecidableEq, Hashable, Repr

namespace RawText

/-- A text that is well formed. -/
def ofString (s : String) : RawText := ⟨Text.bytesOf s⟩

instance : Coe String RawText := ⟨ofString⟩

instance : Append RawText := ⟨fun a b => ⟨a.bytes ++ b.bytes⟩⟩

/-- The text as answers show it. -/
def text (t : RawText) : String := Text.ofBytes t.bytes

/-- The text between double quotes, as messages show it. -/
def escaped (t : RawText) : String := Text.escapedBytes t.bytes

/-- The pieces between the occurrences of a byte; there is always at least one. -/
def splitBytes (sep : UInt8) : Bytes → List Bytes
  | [] => [[]]
  | b :: rest =>
    if b = sep then [] :: splitBytes sep rest
    else
      match splitBytes sep rest with
      | [] => [[b]]
      | piece :: pieces => (b :: piece) :: pieces

/-- The pieces of a text between the occurrences of a byte. -/
def splitOn (sep : UInt8) (t : RawText) : List RawText := (splitBytes sep t.bytes).map .mk

@[simp]
theorem bytes_ofString (s : String) : (ofString s).bytes = Text.bytesOf s := rfl

@[simp]
theorem bytes_append (a b : RawText) : (a ++ b).bytes = a.bytes ++ b.bytes := rfl

end RawText
end Blockwright
