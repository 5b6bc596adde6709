import Blockwright.Json.Basic
import Blockwright.Number.Read
import Blockwright.Number.Text
import Blockwright.Text.Encoding
/-!
# Writing JSON

The compact form of a value, and the canonical form that a value has when it was read and is written again.
-/

/-!
## The compact form

The compact form: no white space, and an escape for control characters, for the characters
that have a meaning in markup, and for the two line separators.
-/

namespace Blockwright.Json

/-- The characters that stand for one character of a string. -/
def escapeChar (c : Char) : List Char :=
  if c = '"' then ['\\', '"']
  else if c = '\\' then ['\\', '\\']
  else if c = '\n' then ['\\', 'n']
  else if c = '\r' then ['\\', 'r']
  else if c = '\t' then ['\\', 't']
  else if c < ' ' || c = '<' || c = '>' || c = '&' || c = '\u2028' || c = '\u2029' then
    '\\' :: 'u' :: Text.hexPadded 4 c.toNat
  else [c]

/-- A text as a JSON string. -/
def quoteString (s : String) : String :=
  String.ofList ('"' :: (s.toList.flatMap escapeChar ++ ['"']))

mutual

/-- The compact text of a value. -/
def render : Json → String
  | .null => "null"
  | .bool b => Text.ofBool b
  | .num text => text
  | .str s => quoteString s
  | .arr _ items => "[" ++ renderItems items ++ "]"
  | .object members => "\x7b" ++ renderMembers members ++ "\x7d"

/-- Items with commas between them. -/
def renderItems : List Json → String
  | [] => ""
  | [j] => render j
  | j :: k :: rest => render j ++ "," ++ renderItems (k :: rest)

/-- Members with commas between them. -/
def renderMembers : List (String × Json) → String
  | [] => ""
  | [(name, j)] => quoteString name ++ ":" ++ render j
  | (name, j) :: m :: rest =>
    quoteString name ++ ":" ++ render j ++ "," ++ renderMembers (m :: rest)

end

/-! ## Texts that are already JSON -/

/-- The characters of a JSON text inside a string, with the markup characters and the line
separators escaped. -/
def compactChar (c : Char) : List Char :=
  if c = '<' || c = '>' || c = '&' || c = '\u2028' || c = '\u2029' then
    '\\' :: 'u' :: Text.hexPadded 4 c.toNat
  else [c]

/-- Drops white space outside strings and escapes markup; the first argument says whether the
text starts inside a string. -/
def compactChars : Bool → List Char → List Char
  | _, [] => []
  | false, c :: rest =>
    if c == ' ' || c == '\t' || c == '\n' || c == '\r' then compactChars false rest
    else c :: compactChars (c == '"') rest
  | true, '\\' :: e :: rest => '\\' :: (compactChar e ++ compactChars true rest)
  | true, c :: rest => compactChar c ++ compactChars (c != '"') rest

/-- The compact form of a JSON text, strings and numbers as they are written. -/
def compact (text : String) : String := String.ofList (compactChars false text.toList)

end Blockwright.Json

/-!
## The canonical form of a value

A value that was read and is written again: the members of objects in the order of their names,
the last of repeated ones, and numbers with the fewest digits.
-/

namespace Blockwright.Json

/-- Members in the order of their names; of repeated names the last one stays. -/
def sortMembers (members : List (String × Json)) : List (String × Json) :=
  let last := members.foldr (fun m kept => if kept.any (·.1 = m.1) then kept else m :: kept) []
  last.mergeSort fun a b => a.1 ≤ b.1

mutual

/-- The canonical form of a value; `none` when a number in it is too large or not a number. -/
def canonical? : Json → Option Json
  | .null => some .null
  | .bool b => some (.bool b)
  | .str s => some (.str s)
  | .num text =>
    match Double.read text with
    | .ok (.finite negative m e) =>
      some (.num ((Double.finite negative m e).toText Double.documentStyle))
    | _ => none
  | .arr _ items => do return .array (← canonicalItems? items)
  | .object members => do return .object (sortMembers (← canonicalMembers? members))

/-- The canonical forms of items. -/
def canonicalItems? : List Json → Option (List Json)
  | [] => some []
  | j :: rest => do return (← canonical? j) :: (← canonicalItems? rest)

/-- The canonical forms of members, in the order written. -/
def canonicalMembers? : List (String × Json) → Option (List (String × Json))
  | [] => some []
  | (name, j) :: rest => do return (name, ← canonical? j) :: (← canonicalMembers? rest)

end

end Blockwright.Json
