import Blockwright.Text.Blank
/-!
# Snake case

A name in mixed case becomes lower-case words with underscores between them.
-/

namespace Blockwright.Text

/-- An upper-case letter. -/
def isUpper (c : Char) : Bool := 'A' ≤ c && c ≤ 'Z'

/-- A lower-case letter. -/
def isLower (c : Char) : Bool := 'a' ≤ c && c ≤ 'z'

/-- An upper-case letter in lower case. -/
def lower (c : Char) : Char := if isUpper c then Char.ofNat (c.toNat + 32) else c

/-- Whether a word ends between two neighbours: upper before lower or digit, lower before
upper or digit, digit before letter. -/
def isBoundary (c next : Char) : Bool :=
  (isUpper c && (isLower next || isDigit next)) || (isLower c && (isUpper next || isDigit next))
    || (isDigit c && (isUpper next || isLower next))

/-- The characters that stand for `c` between its neighbours. -/
def snakeChar (prev : Option Char) (c : Char) (next : Option Char) : List Char :=
  let plain := if c == ' ' || c == '_' || c == '-' || c == '.' then ['_'] else [lower c]
  match next with
  | none => plain
  | some n =>
    if isBoundary c n then
      (if isUpper c && isLower n && prev.any isUpper then ['_'] else [])
        ++ lower c :: (if isLower c || isDigit c || isDigit n then ['_'] else [])
    else plain

/-- Snake case of what follows `prev`. -/
def snakeFrom (prev : Option Char) : List Char → List Char
  | [] => []
  | c :: rest => snakeChar prev c rest.head? ++ snakeFrom (some c) rest

/-- A name in snake case, without the white space around it. -/
def snake (s : String) : String := String.ofList (snakeFrom none (trimChars isBlank s.toList))

end Blockwright.Text
