import Blockwright.Number.Whole
import Blockwright.Service.Generate
import Blockwright.Text.Blank
/-!
# The environment

Named texts that the program is set up with, and the files that hold such texts.
-/

/-!
## Reading the environment

Named texts that the program is set up with. A variable that is empty counts as absent.
-/

namespace Blockwright

/-- Texts by name. The first of several counts. -/
abbrev Environment := List (String × String)

namespace Environment

/-- The text of a name, empty when it is not there. -/
def text (env : Environment) (name : String) : String := (env.lookup name).getD ""

/-- The text of a name, or else another. -/
def textOr (env : Environment) (name fallback : String) : String :=
  if env.text name = "" then fallback else env.text name

/-- The whole number of a name, or else another. -/
def intOr (env : Environment) (name : String) (fallback : Int) : Int :=
  (Whole.ofText? (env.text name)).getD fallback

/-- Reads a truth value. -/
def truth? (s : String) : Option Bool :=
  if ["1", "t", "T", "TRUE", "true", "True"].contains s then some true
  else if ["0", "f", "F", "FALSE", "false", "False"].contains s then some false
  else none

/-- The truth value of a name, or else another. -/
def boolOr (env : Environment) (name : String) (fallback : Bool) : Bool :=
  (truth? (env.text name)).getD fallback

/-- The texts of a name between commas, trimmed, without empty ones. -/
def texts (env : Environment) (name : String) : List String :=
  ((Text.splitOn ',' (env.text name)).map Text.trim).filter (· ≠ "")

end Environment

/-- The generator's settings in an environment. -/
def GeneratorSettings.ofEnvironment (env : Environment) : GeneratorSettings :=
  { oneBased := env.boolOr "GEN_ONE_BASED_INDEX" false
    indent := env.textOr "GEN_INDENT" "  "
    reserved := env.texts "GEN_RESERVED_WORDS"
    strict := env.boolOr "GEN_STRICT_HELPERS" false }

end Blockwright

/-!
## Environment files

A file of statements `NAME=value`. Values may be quoted, go on over line ends inside quotes, and
refer to names set further up. Lines that start with `#` are comments.
-/

namespace Blockwright.EnvFile

/-- White space inside a line. -/
def isSpace (c : Char) : Bool :=
  c == '\t' || c == '\x0b' || c == '\x0c' || c == '\r' || c == ' ' || c == '\u0085' || c == '\u00a0'

/-- The end of a line. -/
def isLineEnd (c : Char) : Bool := c == '\n' || c == '\r'

/-- Skips white space and comments up to the next statement; the first argument says whether the
text starts inside a comment. -/
def skipToStatement : Bool → List Char → List Char
  | _, [] => []
  | true, c :: rest => skipToStatement (c != '\n') rest
  | false, c :: rest =>
    if Text.isBlank c then skipToStatement false rest
    else if c == '#' then skipToStatement true rest
    else c :: rest

/-! ## Names -/

/-- A byte that a name may hold: a letter, a digit, `_`, `.` or white space, bytes past ASCII
counting as the characters of their numbers. -/
def isNameByte (b : UInt8) : Bool :=
  let n := b.toNat
  let c := Char.ofNat n
  if n < 128 then Text.isWordChar c || c == '.' || isSpace c
  else n == 0x85 || n == 0xA0 || n == 0xAA || n == 0xB2 || n == 0xB3 || n == 0xB5 || n == 0xB9
    || n == 0xBA || (0xBC ≤ n && n ≤ 0xBE) || (0xC0 ≤ n && n != 0xD7 && n != 0xF7)

/-- A character that a name may hold. -/
def isNameChar (c : Char) : Bool := (Text.bytesOf (String.singleton c)).all isNameByte

/-- Splits a statement behind its name: `none` when the name holds something else, and no pair
when nothing ends the name. -/
def splitName : List Char → Option (Option (List Char × List Char))
  | [] => some none
  | c :: rest =>
    if c == '=' || c == ':' then some (some ([], rest))
    else if isNameChar c then
      (splitName rest).map fun found => found.map fun (name, rest) => (c :: name, rest)
    else none

/-- Drops the word `export` and the white space behind it. -/
def dropExport (cs : List Char) : List Char :=
  match Text.dropStart? "export".toList cs with
  | some (c :: rest) => if isSpace c then rest.dropWhile isSpace else cs
  | _ => cs

/-- The name of a statement and its value's text. A statement without `=` has an empty name. -/
def name? (cs : List Char) : Option (String × List Char) :=
  let cs := dropExport cs
  if cs.isEmpty then none
  else (splitName cs).map fun found =>
    let (name, rest) := found.getD ([], cs)
    (String.ofList (name.reverse.dropWhile Text.isBlank).reverse, rest.dropWhile isSpace)

/-! ## Values -/

/-- Puts the values of names in place of `$NAME` and its other forms. A backslash in front keeps
the dollar sign. The first argument counts characters to skip. -/
def expandFrom (vars : Environment) : Nat → List Char → List Char
  | _, [] => []
  | skip + 1, _ :: rest => expandFrom vars skip rest
  | 0, '\\' :: '$' :: rest => '$' :: expandFrom vars 1 ('$' :: rest)
  | 0, '$' :: rest =>
    let paren := rest.takeWhile (· == '(') |>.take 1
    let brace := (rest.drop paren.length).takeWhile (· == '\x7b') |>.take 1
    let lead := paren.length + brace.length
    let name := (rest.drop lead).takeWhile fun c => ('A' ≤ c && c ≤ 'Z') || Text.isDigit c || c == '_'
    let close := (rest.drop (lead + name.length)).takeWhile (· == '\x7d') |>.take 1
    if name.isEmpty then '$' :: expandFrom vars 0 rest
    else (vars.text (String.ofList name)).toList
      ++ expandFrom vars (lead + name.length + close.length) rest
  | 0, c :: rest => c :: expandFrom vars 0 rest

/-- Puts the values of names in place of references to them. -/
def expand (vars : Environment) (cs : List Char) : String := String.ofList (expandFrom vars 0 cs)

/-- Puts line ends in place of their escapes and leaves other escapes. -/
def unescapeLines : List Char → List Char
  | [] => []
  | '\\' :: 'n' :: rest => '\n' :: unescapeLines rest
  | '\\' :: 'r' :: rest => '\r' :: unescapeLines rest
  | '\\' :: '\n' :: rest => '\\' :: '\n' :: unescapeLines rest
  | '\\' :: c :: rest => '\\' :: c :: unescapeLines rest
  | c :: rest => c :: unescapeLines rest

/-- Drops backslashes that escape something other than a dollar sign. -/
def dropEscapes : List Char → List Char
  | [] => []
  | '\\' :: '$' :: rest => '\\' :: '$' :: dropEscapes rest
  | '\\' :: c :: rest => c :: dropEscapes rest
  | c :: rest => c :: dropEscapes rest

/-- What stands before the comment of a line, both reversed. -/
def beforeComment : List Char → Option (List Char)
  | '#' :: b :: rest => if isSpace b then some (b :: rest) else beforeComment (b :: rest)
  | _ :: rest => beforeComment rest
  | [] => none

/-- A value without quotes: the line up to its comment. -/
def plainValue (vars : Environment) (cs : List Char) : String × List Char :=
  let line := cs.takeWhile fun c => !isLineEnd c
  let body := ((beforeComment line.reverse).map List.reverse).getD line
  (expand vars (Text.trimChars isSpace body), cs.drop line.length)

/-- The text up to a quote that no backslash stands before, and what follows the quote. -/
def upToQuote (quote : Char) : Char → List Char → Option (List Char × List Char)
  | _, [] => none
  | before, c :: rest =>
    if c == quote && before != '\\' then some ([], rest)
    else (upToQuote quote c rest).map fun (body, rest) => (c :: body, rest)

/-- A value in quotes. Only double quotes know escapes and references. -/
def quotedValue? (vars : Environment) (quote : Char) (cs : List Char) :
    Option (String × List Char) :=
  (upToQuote quote quote cs).map fun (body, rest) =>
    let body := Text.trimChars (· == quote) body
    (if quote == '"' then expand vars (dropEscapes (unescapeLines body)) else String.ofList body,
      rest)

/-- The value at the front of a text. -/
def value? (vars : Environment) (cs : List Char) : Option (String × List Char) :=
  match cs with
  | '"' :: rest => quotedValue? vars '"' rest
  | '\'' :: rest => quotedValue? vars '\'' rest
  | cs => some (plainValue vars cs)

/-- Reads statements; the later ones come first in the result. Every statement takes a
character at least, so `fuel` is enough when it is the length of the text. -/
def statements? : Nat → Environment → List Char → Option Environment
  | 0, vars, _ => some vars
  | fuel + 1, vars, cs =>
    match skipToStatement false cs with
    | [] => some vars
    | cs => do
      let (name, rest) ← name? cs
      let (value, rest) ← value? vars rest
      statements? fuel ((name, value) :: vars) rest

/-- Puts one line feed in place of a carriage return and a line feed. -/
def joinLineEnds : List Char → List Char
  | [] => []
  | '\r' :: '\n' :: rest => '\n' :: joinLineEnds rest
  | c :: rest => c :: joinLineEnds rest

/-- The variables of a file; of repeated names the last one comes first. -/
def parse? (text : String) : Option Environment :=
  let cs := joinLineEnds text.toList
  statements? cs.length [] cs

end Blockwright.EnvFile
