import Blockwright.Text.Lines
/-!
# String literals of JavaScript

A text is written between single quotes. A line feed inside is kept behind a backslash, which
makes it a line continuation; `quoteLines` instead writes one literal a line.
-/

namespace Blockwright.Text

/-- The characters that stand for one character inside a literal. -/
def quoteChar (c : Char) : List Char :=
  if c = '\\' then ['\\', '\\']
  else if c = '\n' then ['\\', '\n']
  else if c = '\'' then ['\\', '\'']
  else [c]

/-- A text as one single-quoted literal. -/
def quote (text : String) : String :=
  String.ofList ('\'' :: (text.toList.flatMap quoteChar ++ ['\'']))

/-- A text as one literal a line, joined by explicit line feeds. -/
def quoteLines (text : String) : String :=
  joinWith " + '\\n' +\n" ((splitOn '\n' text).map quote)

/-! ## Literals recognised in code -/

/-- Every single quote stands behind a backslash; `prev` is the character before. -/
def quotesEscaped : Char → List Char → Bool
  | _, [] => true
  | prev, c :: rest => (c != '\'' || prev == '\\') && quotesEscaped c rest

/-- One single-quoted literal with white space around it. -/
def isQuoted (code : String) : Bool :=
  match trimChars isCodeBlank code.toList with
  | '\'' :: rest => rest.getLast? == some '\'' && quotesEscaped '\'' rest.dropLast
  | _ => false

/-- A word that may have a single quote at either end. -/
def isQuotedWord (code : String) : Bool :=
  let cs := code.toList
  let cs := if cs.head? = some '\'' then cs.tail else cs
  let cs := if cs.getLast? = some '\'' then cs.dropLast else cs
  !cs.isEmpty && cs.all isWordChar

/-- A decimal literal without exponent, with white space around it: an optional minus sign,
digits, and perhaps a point and more digits. -/
def isNumber (code : String) : Bool :=
  let cs := trimChars isCodeBlank code.toList
  let cs := if cs.head? = some '-' then cs.tail else cs
  let rest := cs.dropWhile isDigit
  cs.head?.any isDigit &&
    match rest with
    | [] => true
    | '.' :: frac => !frac.isEmpty && frac.all isDigit
    | _ => false

end Blockwright.Text
