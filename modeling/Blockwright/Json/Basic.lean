import Blockwright.Text.Chars
import Blockwright.Text.Raw
/-!
# JSON values

A value keeps what its document said: members in the order written with repeated names, numbers
as their text, and arrays together with the text they were read from. An array that was built
rather than read has the empty text there.
-/

namespace Blockwright

/-- A JSON value. -/
inductive Json where
  | null
  | bool (value : Bool)
  | num (text : String)
  | str (value : String)
  | arr (source : RawText) (items : List Json)
  | object (members : List (String × Json))
deriving Inhabited, Repr

namespace Json

/-- An array that was built. -/
def array (items : List Json) : Json := .arr "" items

/-- A whole number. -/
def int (n : Int) : Json := .num (Text.ofInt n)

/-- An array of texts. -/
def strings (items : List String) : Json := array (items.map .str)

/-- A member that is left out when its text is empty. -/
def textMember (name text : String) : List (String × Json) :=
  if text = "" then [] else [(name, .str text)]

/-- The members of an object; no other value has any. -/
def members : Json → List (String × Json)
  | .object ms => ms
  | _ => []

/-- The member of a name; the last of repeated ones counts. -/
def member? (j : Json) (name : String) : Option Json :=
  (j.members.reverse.find? fun m => m.1 = name).map (·.2)

end Json
end Blockwright
