import Blockwright.Json.Basic
import Blockwright.Number.Read
import Blockwright.Number.Whole
/-!
# Reading values into records

A `Reader` reads a JSON value into a value that is already held, because a document may name a
member twice: the later one is read into what the earlier one left, so objects merge. `null`
leaves most values as they are. Names of members match without regard to case.

A list is read item by item into the places that were there before. A shorter list hides the
places behind its end and does not clear them, so a longer one after it finds them again: `Slots`
keeps both.
-/

namespace Blockwright.Json

/-- Reads a value into the one held before; `none` when it is of the wrong kind. -/
abbrev Reader (α : Type) := α → Json → Option α

/-- A list that may be read again: its items, and behind them what longer lists before it left. -/
structure Slots (α : Type) where
  items : List α := []
  behind : List α := []
deriving DecidableEq, Repr

/-- Every place of a list, the hidden ones included. -/
def Slots.places {α : Type} (s : Slots α) : List α := s.items ++ s.behind

/-- The representative of a character and its other cases. -/
def foldChar (c : Char) : Char :=
  if 'A' ≤ c && c ≤ 'Z' then Char.ofNat (c.toNat + 32)
  else if c = '\u017F' then 's'
  else if c = '\u212A' then 'k'
  else c

/-- Whether two names are equal without regard to case. -/
def sameName (a b : String) : Bool := a.toList.map foldChar == b.toList.map foldChar

/-- The values of the members that match a name, in the order written. -/
def valuesOf (members : List (String × Json)) (name : String) : List Json :=
  (members.filter fun m => sameName m.1 name).map (·.2)

namespace Reader

/-- A text. -/
def string : Reader String
  | old, .null => some old
  | _, .str s => some s
  | _, _ => none

/-- A truth value. -/
def bool : Reader Bool
  | old, .null => some old
  | _, .bool b => some b
  | _, _ => none

/-- The whole number that a text of digits with an optional minus sign spells. -/
def wholeNumber? (text : String) : Option Int :=
  match text.toList with
  | '-' :: cs => if !cs.isEmpty && cs.all Text.isDigit then some (-(Text.digitsValue cs : Int)) else none
  | cs => if !cs.isEmpty && cs.all Text.isDigit then some (Text.digitsValue cs : Int) else none

/-- A whole number between two bounds, written without point and exponent. -/
def wholeBetween (low high : Int) : Reader Int
  | old, .null => some old
  | _, .num text => (wholeNumber? text).filter fun n => low ≤ n && n ≤ high
  | _, _ => none

/-- A whole number of 64 bits. -/
def int : Reader Int := wholeBetween Whole.least Whole.greatest

/-- A number that is not too large. -/
def double : Reader Double
  | old, .null => some old
  | _, .num text => (Double.read text).toOption
  | _, _ => none

/-- Any value, `null` included. -/
def raw : Reader (Option Json) := fun _ j => some (some j)

/-- A value that `null` removes. -/
def optional {α : Type} (zero : α) (r : Reader α) : Reader (Option α)
  | _, .null => some none
  | old, j => (r (old.getD zero) j).map some

/-- Reads each item into the item held at its place before. -/
def items {α : Type} (zero : α) (r : Reader α) : List α → List Json → Option (List α)
  | _, [] => some []
  | old, j :: rest => do
    let x ← r (old.headD zero) j
    let xs ← items zero r old.tail rest
    return x :: xs

/-- A list of values, each read into its place. `null` and the empty list clear every place. -/
def slots {α : Type} (zero : α) (r : Reader α) : Reader (Slots α)
  | _, .null | _, .arr _ [] => some {}
  | old, .arr _ js => do
    let items ← items zero r old.places js
    return { items, behind := old.places.drop js.length }
  | _, _ => none

/-- A list of values of any kind, which keeps nothing of the list before it. -/
def values : Reader (List Json)
  | _, .null => some []
  | _, .arr _ js => some js
  | _, _ => none

/-- Reads the members of a name, one after the other, into a value. -/
def field {α : Type} (members : List (String × Json)) (name : String) (r : Reader α) (zero : α) :
    Option α :=
  (valuesOf members name).foldlM r zero

/-- The list that the members of a name leave. -/
def listField {α : Type} (members : List (String × Json)) (name : String) (zero : α)
    (r : Reader α) : Option (List α) :=
  (field members name (slots zero r) {}).map (·.items)

/-- A record: its members are read by `r`. -/
def record {α : Type} (r : α → List (String × Json) → Option α) : Reader α
  | old, .null => some old
  | old, .object members => r old members
  | _, _ => none

end Reader
end Blockwright.Json
