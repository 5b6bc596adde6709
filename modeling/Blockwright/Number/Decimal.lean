import Blockwright.Text.Chars
/-!
# Exact decimals

A decimal is a whole number divided by a power of ten. It is kept with the fewest places, so
that equal values are equal as structures.
-/

/-!
## Powers

The two families of powers that numbers are scaled by.
-/

namespace Blockwright

/-- A power of two. -/
abbrev twoTo (n : Nat) : Nat := Nat.pow 2 n

/-- A power of ten. -/
abbrev tenTo (n : Nat) : Nat := Nat.pow 10 n

end Blockwright

/-! ## Decimals -/

namespace Blockwright

/-- The value `units / 10 ^ places`. -/
structure Decimal where
  /-- The value without its point. -/
  units : Int
  /-- How many digits of `units` stand behind the point. -/
  places : Nat
deriving DecidableEq, Repr

namespace Decimal

/-- Drops zeros at the end of the places. -/
def normal (units : Int) : Nat → Decimal
  | 0 => ⟨units, 0⟩
  | places + 1 => if units % 10 = 0 then normal (units / 10) places else ⟨units, places + 1⟩

/-- The greatest whole number that is not above the value. -/
def floor (d : Decimal) : Int := Int.fdiv d.units (tenTo d.places)

/-- Digits with at least `width` of them, zeros in front. -/
def padded (width n : Nat) : String :=
  let digits := Nat.toDigits 10 n
  String.ofList (List.replicate (width - digits.length) '0' ++ digits)

/-- The value in positional notation, without zeros at the end of its places. -/
def toText (d : Decimal) : String :=
  let sign := if d.units < 0 then "-" else ""
  let n := d.units.natAbs
  if d.places = 0 then sign ++ Text.ofNat n
  else sign ++ Text.ofNat (n / tenTo d.places) ++ "." ++ padded d.places (n % tenTo d.places)

/-- Moves the point of `units / 10 ^ places` by a decimal exponent. -/
def scaled (units : Int) (places : Nat) (exponent : Int) : Decimal :=
  if (places : Int) ≤ exponent then ⟨units * tenTo (exponent - places).toNat, 0⟩
  else normal units (places - exponent).toNat

/-- Reads an optional sign. -/
def sign : List Char → Bool × List Char
  | '-' :: rest => (true, rest)
  | '+' :: rest => (false, rest)
  | rest => (false, rest)

/-- Reads an optional decimal exponent that ends the text. -/
def exponent? : List Char → Option Int
  | [] => some 0
  | e :: rest =>
    let (negative, digits) := sign rest
    if (e == 'e' || e == 'E') && !digits.isEmpty && digits.all Text.isDigit then
      let n : Int := Text.digitsValue digits
      some (if negative then -n else n)
    else none

/-- Reads a decimal: an optional sign, digits on at least one side of the point, and perhaps an
exponent. -/
def ofText? (s : String) : Option Decimal := do
  let (negative, cs) := sign s.toList
  let whole := cs.takeWhile Text.isDigit
  let rest := cs.dropWhile Text.isDigit
  let (frac, rest) :=
    match rest with
    | '.' :: more => (more.takeWhile Text.isDigit, more.dropWhile Text.isDigit)
    | other => ([], other)
  if whole.isEmpty && frac.isEmpty then none
  else
    let e ← exponent? rest
    let n : Int := Text.digitsValue (whole ++ frac)
    return scaled (if negative then -n else n) frac.length e

end Decimal
end Blockwright
