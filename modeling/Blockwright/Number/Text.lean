import Blockwright.Number.Shortest
/-!
# The text of a number

Three places print numbers, with the same digits and different styles. What differs is a
`Style`.
-/

namespace Blockwright.Double

/-- Where a style leaves positional digits, and how it writes what is special. -/
structure Style where
  /-- Exponents below this one are written out. -/
  low : Int
  /-- Exponents from this one on are written out. -/
  high : Int
  /-- The least count of digits of an exponent. -/
  exponentWidth : Nat
  /-- Whether zero keeps a minus sign. -/
  signedZero : Bool

/-- Generated code writes numbers as the language itself prints them. -/
def codeStyle : Style := ⟨-6, 21, 1, false⟩

/-- Documents keep the sign of zero. -/
def documentStyle : Style := ⟨-6, 21, 1, true⟩

/-- Messages leave positional digits early and write exponents with two digits. -/
def messageStyle : Style := ⟨-4, 6, 2, true⟩

/-- The digits of a positional number: zeros in front or behind fill up to the point. -/
def positional (digits : List Char) (point : Int) : List Char :=
  if point ≤ 0 then '0' :: '.' :: (List.replicate (-point).toNat '0' ++ digits)
  else if digits.length ≤ point.toNat then
    digits ++ List.replicate (point.toNat - digits.length) '0'
  else digits.take point.toNat ++ '.' :: digits.drop point.toNat

/-- The digits of a number with a written exponent: one digit before the point. -/
def scientific (width : Nat) (digits : List Char) (exponent : Int) : List Char :=
  let mantissa :=
    match digits with
    | [] => []
    | [d] => [d]
    | d :: rest => d :: '.' :: rest
  let sign := if exponent < 0 then '-' else '+'
  mantissa ++ 'e' :: sign :: (Decimal.padded width exponent.natAbs).toList

/-- The text of a number in a style. -/
def toText (style : Style) : Double → String
  | .nan => "NaN"
  | .infinity false => "Infinity"
  | .infinity true => "-Infinity"
  | .finite negative m e =>
    if m = 0 then (if style.signedZero && negative then "-0" else "0")
    else
      let shortest := shortest m e
      let digits := Nat.toDigits 10 shortest.value
      let exponent := shortest.point - 1
      let body :=
        if exponent < style.low || style.high ≤ exponent then
          scientific style.exponentWidth digits exponent
        else positional digits shortest.point
      (if negative then "-" else "") ++ String.ofList body

/-- The text of a number in generated code. -/
def format (x : Double) : String := toText codeStyle x

end Blockwright.Double
