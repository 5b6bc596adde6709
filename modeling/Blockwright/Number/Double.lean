import Blockwright.Number.Decimal
/-!
# Numbers with 53 binary digits

The numbers of the generated language: a sign, a mantissa below `2 ^ 53` and a power of two,
infinities, and one value that is no number. Every operation computes the exact result and
rounds it once, to the nearest such number, halves to the even mantissa.
-/

namespace Blockwright

/-- A number with 53 binary digits. A finite one has the value `mantissa * 2 ^ exponent`, where
the mantissa has 53 binary digits unless the exponent is the least one, -1074. -/
inductive Double where
  | nan
  | infinity (negative : Bool)
  | finite (negative : Bool) (mantissa : Nat) (exponent : Int)
deriving DecidableEq, Repr

namespace Double

/-- The least exponent. -/
def minExponent : Int := -1074

/-- The greatest exponent of a finite number. -/
def maxExponent : Int := 971

/-- The number zero. -/
def zero : Double := .finite false 0 minExponent

/-- `num / den` rounded to a whole number, halves to even. -/
def roundDiv (num den : Nat) : Nat :=
  let q := num / den
  let r := num % den
  if 2 * r < den then q
  else if den < 2 * r then q + 1
  else if q % 2 = 0 then q else q + 1

/-- The quotient of `num / den` by `2 ^ e`, as a fraction. -/
def shifted (num den : Nat) (e : Int) : Nat × Nat :=
  if 0 ≤ e then (num, den * twoTo e.toNat) else (num * twoTo (-e).toNat, den)

/-- The exponent at which the fraction `num / den` has a mantissa of 53 binary digits, or the
least exponent if that would be smaller. -/
def exponentOf (num den : Nat) : Int :=
  let guess : Int := (Nat.log2 num : Int) - Nat.log2 den - 52
  let (n, d) := shifted num den guess
  let e := if n < d * twoTo 52 then guess - 1 else guess
  max e minExponent

/-- A mantissa of at most `2 ^ 53` at an exponent; past the greatest exponent it is infinite. -/
def ofMantissa (negative : Bool) (mantissa : Nat) (exponent : Int) : Double :=
  let (m, e) := if mantissa = twoTo 53 then (twoTo 52, exponent + 1) else (mantissa, exponent)
  if m = 0 then .finite negative 0 minExponent
  else if maxExponent < e then .infinity negative
  else .finite negative m e

/-- The number nearest to `num / den`. -/
def ofFraction (negative : Bool) (num den : Nat) : Double :=
  if num = 0 || den = 0 then .finite negative 0 minExponent
  else
    let e := exponentOf num den
    let (n, d) := shifted num den e
    ofMantissa negative (roundDiv n d) e

/-- The number nearest to `mantissa * 2 ^ exponent`. -/
def ofDyadic (negative : Bool) (mantissa : Nat) (exponent : Int) : Double :=
  if 0 ≤ exponent then ofFraction negative (mantissa * twoTo exponent.toNat) 1
  else ofFraction negative mantissa (twoTo (-exponent).toNat)

/-- The number nearest to a whole number. -/
def ofInt (n : Int) : Double := ofFraction (n < 0) n.natAbs 1

/-- The number with the other sign. -/
def neg : Double → Double
  | .nan => .nan
  | .infinity negative => .infinity !negative
  | .finite negative m e => .finite (!negative) m e

/-- The number without its sign. -/
def abs : Double → Double
  | .nan => .nan
  | .infinity _ => .infinity false
  | .finite _ m e => .finite false m e

/-- A mantissa with its sign. -/
def signed (negative : Bool) (m : Nat) : Int := if negative then -(m : Int) else m

/-- The exact value of a finite number in units of `2 ^ unit`, for a unit not above its
exponent. -/
def inUnits (negative : Bool) (m : Nat) (e unit : Int) : Int :=
  signed negative m * twoTo (e - unit).toNat

/-- The sum, rounded once. -/
def add : Double → Double → Double
  | .nan, _ | _, .nan => .nan
  | .infinity a, .infinity b => if a = b then .infinity a else .nan
  | .infinity a, _ => .infinity a
  | _, .infinity b => .infinity b
  | .finite s m e, .finite t n f =>
    let unit := min e f
    let sum := inUnits s m e unit + inUnits t n f unit
    ofDyadic (if sum = 0 then s && t else sum < 0) sum.natAbs unit

/-- Whether a number is at most another; never so if one is no number. -/
def le : Double → Double → Bool
  | .nan, _ | _, .nan => false
  | .infinity s, .infinity t => s || !t
  | .infinity s, .finite .. => s
  | .finite .., .infinity t => !t
  | .finite s m e, .finite t n f =>
    let unit := min e f
    inUnits s m e unit ≤ inUnits t n f unit

/-- Whether two numbers have the same value. -/
def same (x y : Double) : Bool := le x y && le y x

/-- Whether a number is below zero. -/
def isNegative (x : Double) : Bool := le x zero && !le zero x

/-- The number one. -/
def one : Double := ofInt 1

end Double
end Blockwright
