import Blockwright.Number.Double
/-!
# Reading numbers

The texts that are read as numbers: decimals with an optional exponent, hexadecimal numbers
with a binary exponent, single underscores between digits, and the words for infinity and for
what is no number.
-/

namespace Blockwright.Double

/-- Why a text is not a number that can be held. -/
inductive ReadError where
  | malformed
  | outOfRange
deriving DecidableEq, Repr

/-- A letter of the alphabet in lower case. -/
def lowerLetter (c : Char) : Char :=
  if 'A' ≤ c && c ≤ 'Z' then Char.ofNat (c.toNat + 32) else c

/-- The value of a digit in a base. -/
def digitValue? (hex : Bool) (c : Char) : Option Nat :=
  if Text.isDigit c then some (c.toNat - 48)
  else
    let l := lowerLetter c
    if hex && 'a' ≤ l && l ≤ 'f' then some (l.toNat - 87) else none

/-- What has been read of the digits of a mantissa. -/
structure Mantissa where
  /-- The digits read so far as one number. -/
  value : Nat
  /-- Whether there was a digit. -/
  any : Bool
  /-- Whether there was a point. -/
  point : Bool
  /-- How many digits stood behind the point. -/
  places : Nat

/-- Reads digits, underscores and at most one point. -/
def mantissa (hex : Bool) (m : Mantissa) : List Char → Mantissa × List Char
  | [] => (m, [])
  | c :: rest =>
    if c = '_' then mantissa hex m rest
    else if c = '.' && !m.point then mantissa hex { m with point := true } rest
    else
      match digitValue? hex c with
      | some d =>
        mantissa hex
          { m with
            value := m.value * (if hex then 16 else 10) + d
            any := true
            places := if m.point then m.places + 1 else m.places } rest
      | none => (m, c :: rest)

/-- The digits of an exponent; it stops growing once it has five of them. -/
def exponentDigits (n : Nat) : List Char → Nat × List Char
  | [] => (n, [])
  | c :: rest =>
    if c = '_' then exponentDigits n rest
    else if Text.isDigit c then
      exponentDigits (if n < 10000 then n * 10 + (c.toNat - 48) else n) rest
    else (n, c :: rest)

/-- Reads the exponent behind a mantissa: its value and whether the text ends well. A
hexadecimal number needs one. -/
def exponent? (hex : Bool) : List Char → Option Int
  | [] => if hex then none else some 0
  | c :: rest =>
    if lowerLetter c != (if hex then 'p' else 'e') then none
    else
      let (negative, digits) := Decimal.sign rest
      if digits.head?.any Text.isDigit then
        let (n, left) := exponentDigits 0 digits
        if left.isEmpty then some (if negative then -(n : Int) else n) else none
      else none

/-- What stood before a character when the underscores of a number are checked. -/
inductive Before where
  | start
  | digit
  | underscore
  | other
deriving DecidableEq

/-- Whether each underscore stands between digits. -/
def underscoresBetween (hex : Bool) : Before → List Char → Bool
  | before, [] => before != .underscore
  | before, c :: rest =>
    if (digitValue? hex c).isSome then underscoresBetween hex .digit rest
    else if c = '_' then before == .digit && underscoresBetween hex .underscore rest
    else before != .underscore && underscoresBetween hex .other rest

/-- Whether the underscores of an unsigned number stand between digits; one may follow the mark
of a base. -/
def underscoresOk : List Char → Bool
  | '0' :: mark :: rest =>
    let m := lowerLetter mark
    if m == 'x' || m == 'o' || m == 'b' then underscoresBetween (m == 'x') .digit rest
    else underscoresBetween false .start ('0' :: mark :: rest)
  | cs => underscoresBetween false .start cs

/-- The number nearest to `value * 10 ^ exponent`; far outside the range it is not computed. -/
def ofScientific (negative : Bool) (value : Nat) (exponent : Int) : Double :=
  let point := exponent + (Nat.toDigits 10 value).length
  if value = 0 then .finite negative 0 minExponent
  else if 400 < point then .infinity negative
  else if point < -400 then .finite negative 0 minExponent
  else if 0 ≤ exponent then ofFraction negative (value * tenTo exponent.toNat) 1
  else ofFraction negative value (tenTo (-exponent).toNat)

/-- The number nearest to `value * 2 ^ exponent`; far outside the range it is not computed. -/
def ofBinary (negative : Bool) (value : Nat) (exponent : Int) : Double :=
  let top := exponent + Nat.log2 value
  if value = 0 then .finite negative 0 minExponent
  else if 2000 < top then .infinity negative
  else if top < -2000 then .finite negative 0 minExponent
  else ofDyadic negative value exponent

/-- Reads digits of a base behind the sign. -/
def readDigits (negative hex : Bool) (all digits : List Char) : Except ReadError Double :=
  let (m, rest) := mantissa hex ⟨0, false, false, 0⟩ digits
  match exponent? hex rest with
  | some e =>
    if !m.any || (all.contains '_' && !underscoresOk all) then .error .malformed
    else
      let x :=
        if hex then ofBinary negative m.value (e - 4 * m.places)
        else ofScientific negative m.value (e - m.places)
      match x with
      | .infinity _ => .error .outOfRange
      | x => .ok x
  | none => .error .malformed

/-- Reads a text as a number. -/
def read (s : String) : Except ReadError Double :=
  let (negative, cs) := Decimal.sign s.toList
  let word := String.ofList (cs.map lowerLetter)
  if word = "inf" || word = "infinity" then .ok (.infinity negative)
  else if String.ofList (s.toList.map lowerLetter) = "nan" then .ok .nan
  else
    match cs with
    | '0' :: x :: rest@(_ :: _) =>
      if lowerLetter x = 'x' then readDigits negative true cs rest
      else readDigits negative false cs cs
    | _ => readDigits negative false cs cs

end Blockwright.Double
