import Blockwright.Text.Chars
/-!
# Whole numbers of 64 bits

Counts in documents and in the names of sockets have 64 bits, and arithmetic on them wraps.
-/

namespace Blockwright.Whole

/-- The least number of 64 bits. -/
def least : Int := -9223372036854775808

/-- The greatest number of 64 bits. -/
def greatest : Int := 9223372036854775807

/-- A number brought into the range of 64 bits, by multiples of `2 ^ 64`. -/
def wrap (n : Int) : Int := n.bmod 18446744073709551616

/-- Reads an optional sign and digits; `none` when there is no digit, something else, or a
number that does not fit. -/
def ofText? (s : String) : Option Int :=
  let (negative, digits) :=
    match s.toList with
    | '-' :: rest => (true, rest)
    | '+' :: rest => (false, rest)
    | rest => (false, rest)
  if digits.isEmpty || !digits.all Text.isDigit then none
  else
    let n : Int := if negative then -(Text.digitsValue digits : Int) else Text.digitsValue digits
    if least ≤ n && n ≤ greatest then some n else none

end Blockwright.Whole
