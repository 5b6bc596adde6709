import Blockwright.Proofs.Operators.Grammar
/-!
# Tokens of generated code

A lexer goes over code one character at a time. A character goes on with the token that is being read if
it can, so every token is as long as possible; otherwise the token ends and the character begins something
else. A slash divides behind an operand, and elsewhere starts a comment or a regular expression. Code has
no tokens where a character can do neither, as at the end of a line in a string.
-/

namespace Blockwright.Lexical

open Text
open Operators (Phase)

/-! ## The lexer -/

/-- Where a lexer stands. -/
inductive Mode where
  /-- Between tokens; `operand` says whether an operand has ended in front. -/
  | blank (operand : Bool)
  /-- In a word or a number. -/
  | leaf (phase : Phase)
  /-- In a string, up to its closing mark. -/
  | string (mark : Char)
  /-- Behind a backslash in a string. -/
  | escape (mark : Char)
  /-- Behind the closing mark of a string. -/
  | literal
  /-- Behind a slash. -/
  | slash (operand : Bool)
  /-- In a comment up to the end of its line. -/
  | line (operand : Bool)
  /-- In a comment between marks. -/
  | block (operand : Bool)
  /-- Behind a star in such a comment. -/
  | star (operand : Bool)
  /-- In a regular expression, perhaps between the brackets of a class. -/
  | pattern (inClass : Bool)
  /-- Behind a backslash in a regular expression. -/
  | patternEscape (inClass : Bool)
  /-- Behind the closing slash of a regular expression. -/
  | flags
  /-- In a symbol. -/
  | symbol (chars : List Char)
deriving DecidableEq, Repr

/-- The symbols of the language but for the slash. -/
def symbols : List (List Char) := [
  ['('], [')'], ['['], [']'], ['\x7b'], ['\x7d'], [','], [';'], [':'], ['~'], ['.'], ['.', '.', '.'],
  ['='], ['=', '='], ['=', '=', '='], ['=', '>'], ['!'], ['!', '='], ['!', '=', '='],
  ['+'], ['+', '+'], ['+', '='], ['-'], ['-', '-'], ['-', '='], ['*'], ['*', '='], ['*', '*'], ['*', '*', '='],
  ['/', '='], ['%'], ['%', '='], ['<'], ['<', '='], ['<', '<'], ['<', '<', '='], ['>'], ['>', '='], ['>', '>'],
  ['>', '>', '='], ['>', '>', '>'], ['>', '>', '>', '='], ['&'], ['&', '='], ['&', '&'], ['&', '&', '='],
  ['|'], ['|', '='], ['|', '|'], ['|', '|', '='], ['^'], ['^', '='], ['?'], ['?', '.'], ['?', '?'], ['?', '?', '=']]

/-- Whether a symbol begins with these characters. -/
def startsSymbol (cs : List Char) : Bool := symbols.any cs.isPrefixOf

/-- The characters that end a line. The two separators beyond them may stand in a string. -/
def endsLine (c : Char) : Bool := c = '\n' || c = '\r'

/-- What a character does. -/
inductive Move where
  /-- It goes on with what is being read. -/
  | on (mode : Mode)
  /-- It begins something else. -/
  | anew (mode : Mode)
deriving DecidableEq, Repr

/-- Where the lexer stands behind the character. -/
def Move.mode : Move → Mode
  | .on m => m
  | .anew m => m

namespace Mode

/-- Whether an operand ends here, or has ended before the blank space here. -/
def ends : Mode → Bool
  | .blank operand => operand
  | .leaf _ | .literal | .flags => true
  | .symbol cs => cs = [')'] || cs = [']']
  | _ => false

/-- What begins with a character. -/
def start? (operand : Bool) (c : Char) : Option Mode :=
  if c = ' ' || c = '\t' || endsLine c then some (.blank operand)
  else if c = '\'' || c = '"' then some (.string c)
  else if c = '/' then some (.slash operand)
  else
    match Phase.start? c with
    | some phase => some (.leaf phase)
    | none => if startsSymbol [c] then some (.symbol [c]) else none

/-- A character in a regular expression. -/
def patternNext? (inClass : Bool) (c : Char) : Option Move :=
  if endsLine c then none
  else if c = '\\' then some (.on (.patternEscape inClass))
  else if c = '/' && !inClass then some (.on .flags)
  else some (.on (.pattern (if inClass then c != ']' else c == '[')))

/-- The next character. A word directly behind a number is an error of the language; behind a point it
is let pass, so that what is read there can be told. -/
def next? (m : Mode) (c : Char) : Option Move :=
  let anew := (start? m.ends c).map Move.anew
  match m with
  | .blank _ | .literal => anew
  | .leaf phase =>
    match phase.next? c with
    | some phase => some (.on (.leaf phase))
    | none => if phase.mayEnd && (phase = .fraction || !isWordChar c) then anew else none
  | .string mark =>
    if c = '\\' then some (.on (.escape mark))
    else if c = mark then some (.on .literal)
    else if endsLine c then none
    else some (.on (.string mark))
  | .escape mark => some (.on (.string mark))
  | .slash operand =>
    if c = '/' then some (.on (.line operand))
    else if c = '*' then some (.on (.block operand))
    else if operand then (if c = '=' then some (.on (.symbol ['/', '='])) else anew)
    else patternNext? false c
  | .line operand => if endsLine c then some (.anew (.blank operand)) else some (.on (.line operand))
  | .block operand => some (.on (if c = '*' then .star operand else .block operand))
  | .star operand =>
    some (.on (if c = '/' then .blank operand else if c = '*' then .star operand else .block operand))
  | .pattern inClass => patternNext? inClass c
  | .patternEscape inClass => if endsLine c then none else some (.on (.pattern inClass))
  | .flags => if isWordChar c then some (.on .flags) else anew
  | .symbol cs =>
    if startsSymbol (cs ++ [c]) then some (.on (.symbol (cs ++ [c])))
    else if isDigit c && cs = ['.'] then some (.on (.leaf .fraction))
    else if symbols.contains cs && !(isDigit c && cs = ['?', '.']) then anew
    else none

/-- Whether code may end here. -/
def mayEnd : Mode → Bool
  | .blank _ | .literal | .flags | .line _ => true
  | .leaf phase => phase.mayEnd
  | .slash operand => operand
  | .symbol cs => symbols.contains cs
  | _ => false

/-- The token that ends here, where these characters are read; blank space and comments are none. -/
def token (m : Mode) (held : List Char) : List String :=
  match m with
  | .blank _ | .line _ | .block _ | .star _ => []
  | _ => [String.ofList held]

end Mode

/-- How far a lexer has come: the tokens that have ended, where it stands, and what it has read of the
next token. -/
structure Reading where
  tokens : List String
  mode : Mode
  held : List Char
deriving DecidableEq, Repr

/-- Reads one more character. -/
def Reading.step (r : Reading) (c : Char) : Option Reading :=
  (r.mode.next? c).map fun
    | .on m => { r with mode := m, held := r.held ++ [c] }
    | .anew m => { tokens := r.tokens ++ r.mode.token r.held, mode := m, held := [c] }

/-- Reads more characters. -/
def Reading.read (r : Reading) (cs : List Char) : Option Reading := cs.foldlM Reading.step r

/-- Where a lexer starts. -/
def Reading.start : Reading := ⟨[], .blank false, []⟩

/-- The tokens when the code ends here. -/
def Reading.finish? (r : Reading) : Option (List String) :=
  if r.mode.mayEnd then some (r.tokens ++ r.mode.token r.held) else none

/-- The tokens of code. -/
def tokens? (code : String) : Option (List String) := (Reading.start.read code.toList).bind Reading.finish?

example : tokens? "(-5).length / 2 >= 0.5 ? a[0] : 'b\\'c'.replace(/[/\\]]+$/, '')" =
    some ["(", "-", "5", ")", ".", "length", "/", "2", ">=", "0.5", "?", "a", "[", "0", "]", ":", "'b\\'c'", ".",
      "replace", "(", "/[/\\]]+$/", ",", "''", ")"] := by
  decide +kernel

example : tokens? "5.length" = some ["5.", "length"] ∧ tokens? "5.5.length" = some ["5.5", ".", "length"] := by
  decide +kernel

end Blockwright.Lexical
