import Blockwright.Emit.Site
import Blockwright.Number.Read
import Blockwright.Number.Text
import Blockwright.Number.Whole
import Blockwright.Text.Quoted
/-!
# Positions in lists and texts

A socket holds a position as the user counts. Code wants it counted from zero, moved by a fixed
amount and perhaps with the other sign. A literal position is computed here; any other gets the
arithmetic written behind it.
-/

namespace Blockwright

/-- The precedence to ask of a position that is going to be moved by `delta`. -/
def indexOrder (delta : Int) (negate : Bool) (outer : Order) : Order :=
  if 0 < delta then Order.addition
  else if delta < 0 then Order.subtraction
  else if negate then Order.unaryNegation
  else outer

/-- A literal position, moved and perhaps negated. -/
def shiftLiteral (n : Double) (delta : Int) (negate : Bool) : String :=
  let n := n.add (Double.ofInt delta)
  (if negate then n.neg else n).format

/-- The code of a position, moved and perhaps negated, for a place of precedence `outer`. -/
def shiftCode (code : String) (delta : Int) (negate : Bool) (outer : Order) : String :=
  let moved :=
    if 0 < delta then code ++ " + " ++ Text.ofInt delta
    else if delta < 0 then code ++ " - " ++ Text.ofInt (Whole.wrap (-delta))
    else code
  if negate then
    Order.wrap (if delta = 0 then "-" ++ moved else "-(" ++ moved ++ ")") outer
      Order.unaryNegation
  else if 0 < delta then Order.wrap moved outer Order.addition
  else if delta < 0 then Order.wrap moved outer Order.subtraction
  else moved

/-- The position in a socket, moved by `delta` and perhaps negated. When positions count from
one, the move is one less. An empty socket holds the first position. -/
def Site.index (s : Site) (socket : String) (delta : Int) (negate : Bool) (outer : Order) :
    Emit String := do
  let outer := if outer = Order.atomic then Order.none else outer
  let oneBased ← s.oneBased
  let delta := if oneBased then Whole.wrap (delta - 1) else delta
  let code ← s.valueOr socket (indexOrder delta negate outer) (if oneBased then "1" else "0")
  if Text.isNumber code then
    match Double.read (Text.trim code) with
    | .ok n => return shiftLiteral n delta negate
    | .error _ => Emit.fail (.outOfRange (Text.trim code))
  else return shiftCode code delta negate outer

end Blockwright
