import Blockwright.Number.Double
/-!
# The fewest digits that read back

A finite number is printed with the fewest decimal digits that still round to it; of the
decimals with that many digits, with the one nearest to the number.
-/

namespace Blockwright.Double

/-- Decimal digits and where their point stands: the value is `0.digits * 10 ^ point`. -/
structure Digits where
  /-- The digits, the first and the last of them not zero, as one number. -/
  value : Nat
  /-- The place of the point, counted from the front of the digits. -/
  point : Int
deriving DecidableEq, Repr

/-- How many decimal digits a number has; zero has one. -/
def digitCount (n : Nat) : Nat := (Nat.toDigits 10 n).length

/-- The place of the point of `num / den`: the least `p` with `num / den < 10 ^ p`. -/
def pointOf (num den : Nat) : Int :=
  if den ≤ num then digitCount (num / den)
  else
    let l := digitCount (den / num)
    if den ≤ num * tenTo (l - 1) then 2 - (l : Int) else 1 - (l : Int)

/-- The fraction `num / den` in units of `10 ^ k`. -/
def inTens (num den : Nat) (k : Int) : Nat × Nat :=
  if 0 ≤ k then (num, den * tenTo k.toNat) else (num * tenTo (-k).toNat, den)

/-- A number of `mantissa * 2 ^ exponent` as a fraction of whole numbers. -/
def fractionOf (mantissa : Nat) (exponent : Int) : Nat × Nat :=
  if 0 ≤ exponent then (mantissa * twoTo exponent.toNat, 1) else (mantissa, twoTo (-exponent).toNat)

/-- Whether the decimal `d * 10 ^ k` rounds to `mantissa * 2 ^ exponent`. -/
def readsBack (mantissa : Nat) (exponent : Int) (d : Nat) (k : Int) : Bool :=
  let (n, q) := if 0 ≤ k then (d * tenTo k.toNat, 1) else (d, tenTo (-k).toNat)
  ofFraction false n q == .finite false mantissa exponent

/-- The digits of the decimal with `count` digits that is nearest to a number and rounds to it,
if one does. -/
def withDigits? (mantissa : Nat) (exponent : Int) (count : Nat) : Option Digits :=
  let (num, den) := fractionOf mantissa exponent
  let p := pointOf num den
  let k := p - count
  let (n, d) := inTens num den k
  let below := n / d
  let above := below + 1
  let r := n % d
  let belowReads := readsBack mantissa exponent below k
  let aboveReads := readsBack mantissa exponent above k
  let pickBelow := belowReads && (!aboveReads || 2 * r < d || (2 * r = d && below % 2 = 0))
  let chosen := if pickBelow then below else above
  if belowReads || aboveReads then
    some ⟨chosen, if digitCount chosen = count then p else p + 1⟩
  else none

/-- Drops zeros at the end of a number; `fuel` bounds their count. -/
def dropZeros : Nat → Nat → Nat
  | 0, n => n
  | fuel + 1, n => if n != 0 && n % 10 = 0 then dropZeros fuel (n / 10) else n

/-- The fewest digits that read back as `mantissa * 2 ^ exponent`, for a mantissa that is not
zero. Seventeen digits always do. -/
def shortest (mantissa : Nat) (exponent : Int) : Digits :=
  match (List.range 17).findSome? (fun i => withDigits? mantissa exponent (i + 1)) with
  | some digits => { digits with value := dropZeros 20 digits.value }
  | none => ⟨0, 0⟩

end Blockwright.Double
