import Blockwright.Json.Printer
import Blockwright.Text.Raw
/-!
# Lines of the log

What the program reports while it runs, one line an entry: the level, the place in the program,
the message, and named values.
-/

namespace Blockwright.Log

/-- An entry of the log. -/
structure Entry where
  level : String
  message : String := ""
  fields : List (String × Json) := []

/-- The level between bars, in capitals and as wide as the widest one. -/
def levelText (level : String) : String :=
  let cs := level.toList.map Char.toUpper
  "| " ++ String.ofList (cs ++ List.replicate (6 - cs.length) ' ') ++ "|"

/-- The message with room around it; a message that is not there shows as missing. -/
def messageText (message : String) : String :=
  "  " ++ (if message = "" then "%!s(<nil>)" else message) ++ "  "

/-- Whether a text can stand in a line as it is. -/
def isPlain (s : String) : Bool :=
  s.toList.all fun c => ' ' < c && c ≤ '~' && c ≠ '\\' && c ≠ '"'

/-- A value in a line: a text as it is or between quotes, and any other value as JSON. -/
def valueText : Json → String
  | .str s => if isPlain s then s else Text.escaped s
  | j => ((Json.canonical? j).getD j).render

/-- The fields in the order of their names, but an error first. -/
def arrange (fields : List (String × Json)) : List (String × Json) :=
  let sorted := Json.sortMembers fields
  sorted.filter (·.1 = "error") ++ sorted.filter (·.1 ≠ "error")

/-- The line of an entry; `place` says where in the program it was made. -/
def Entry.line (e : Entry) (place : String) : String :=
  let fields := (arrange e.fields).map fun (name, j) => name ++ "=" ++ valueText j
  Text.joinWith " " (levelText e.level :: place :: messageText e.message :: fields) ++ "\n"

/-- The entry about an error that stops the program. -/
def failure (error message : String) : Entry :=
  { level := "error", message, fields := [("error", .str error)] }

end Blockwright.Log
