import Blockwright.Text.Chars
import Blockwright.Text.Encoding
import Blockwright.Text.Raw
/-!
# Ids of projects

A project has an id of 128 bits, written as hexadecimal digits in five groups. Other spellings
are read too: with braces around it, with `urn:uuid:` in front, and without hyphens.
-/

namespace Blockwright

/-- The id of a project. -/
structure ProjectId where
  value : BitVec 128
deriving DecidableEq, Repr

/-- Why a text is no id. -/
inductive ProjectIdError where
  | length (bytes : Nat)
  | format
  | lead (bytes : Bytes)
deriving DecidableEq, Repr

/-- The message about a text that is no id. -/
def ProjectIdError.message : ProjectIdError → String
  | .length n => "invalid UUID length: " ++ Text.ofNat n
  | .format => "invalid UUID format"
  | .lead bytes => "invalid urn prefix: " ++ Text.escapedBytes bytes

namespace ProjectId

/-- The value of a byte that is a hexadecimal digit. -/
def digit? (b : UInt8) : Option Nat := Text.hexValue? (Char.ofNat b.toNat)

/-- The id of thirty-two digits. -/
def ofDigits (bytes : Bytes) : Except ProjectIdError ProjectId :=
  match bytes.foldlM (fun n b => (digit? b).map (n * 16 + ·)) 0 with
  | some n => .ok ⟨BitVec.ofNat 128 n⟩
  | none => .error .format

/-- A hyphen. -/
def hyphen : UInt8 := 45

/-- The id of five groups of digits with hyphens between them. -/
def ofGroups (bytes : Bytes) : Except ProjectIdError ProjectId :=
  if [8, 13, 18, 23].all fun i => bytes[i]? = some hyphen then
    ofDigits (bytes.take 8 ++ (bytes.drop 9).take 4 ++ (bytes.drop 14).take 4
      ++ (bytes.drop 19).take 4 ++ (bytes.drop 24).take 12)
  else .error .format

/-- What may stand in front of an id. -/
def urnLead : Bytes := Text.bytesOf "urn:uuid:"

/-- A letter in lower case. -/
def lowerByte (b : UInt8) : UInt8 := if 65 ≤ b && b ≤ 90 then b + 32 else b

/-- Reads an id. The length of the text decides how it is spelt; what stands around an id of
thirty-eight bytes is not looked at. -/
def parse (t : RawText) : Except ProjectIdError ProjectId :=
  let bytes := t.bytes
  if bytes.length = 36 then ofGroups bytes
  else if bytes.length = 45 then
    if (bytes.take 9).map lowerByte = urnLead then ofGroups (bytes.drop 9)
    else .error (.lead (bytes.take 9))
  else if bytes.length = 38 then ofGroups (bytes.drop 1)
  else if bytes.length = 32 then ofDigits bytes
  else .error (.length bytes.length)

/-- An id as it is written: lower-case digits in five groups. -/
def toText (id : ProjectId) : String :=
  let digits := Text.hexPadded 32 id.value.toNat
  Text.joinWith "-" ([digits.take 8, (digits.drop 8).take 4, (digits.drop 12).take 4,
    (digits.drop 16).take 4, digits.drop 20].map String.ofList)

end ProjectId
end Blockwright
