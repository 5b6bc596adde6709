import Blockwright.Text.Blank
/-!
# Lines

What is done to the lines of a text, and how a text is cut into lines.
-/

/-!
## Prefixes

Prefixing every line of a text, indenting with another unit, and the final tidying of blank
space in generated code.
-/

namespace Blockwright.Text

/-- Puts `lead` behind every line feed. -/
def leadAfterFeeds (lead : List Char) : List Char → List Char
  | [] => []
  | c :: rest => if c = '\n' then '\n' :: (lead ++ leadAfterFeeds lead rest)
    else c :: leadAfterFeeds lead rest

/-- Puts `lead` in front of every line. A line feed at the very end starts no line, and the
empty text is one empty line. -/
def prefixChars (lead cs : List Char) : List Char :=
  if cs.getLast? = some '\n' then lead ++ leadAfterFeeds lead cs.dropLast ++ ['\n']
  else lead ++ leadAfterFeeds lead cs

/-- Puts `lead` in front of every line of a text. -/
def prefixLines (text lead : String) : String :=
  String.ofList (prefixChars lead.toList text.toList)

/-- At a line's start, writes `unit` for each pair of spaces met and goes on with the line. -/
def reindentChars (unit : List Char) : Bool → List Char → List Char
  | true, ' ' :: ' ' :: rest => unit ++ reindentChars unit true rest
  | _, '\n' :: rest => '\n' :: reindentChars unit true rest
  | _, c :: rest => c :: reindentChars unit false rest
  | _, [] => []

/-- Rewrites the indentation of a text from pairs of spaces to another unit. -/
def reindent (unit text : String) : String :=
  String.ofList (reindentChars unit.toList true text.toList)

/-! ## Tidying -/

/-- Drops the white space at the start up to its last line feed, unless that line feed is the
first character. -/
def dropLeadingBlank (cs : List Char) : List Char :=
  let blank := cs.takeWhile isCodeBlank
  let tail := (blank.reverse.takeWhile (· != '\n')).length
  if tail + 1 < blank.length then cs.drop (blank.length - tail) else cs

/-- Drops all white space behind the first line feed of the white space at the end. -/
def dropTrailingBlank (cs : List Char) : List Char :=
  let blank := (cs.reverse.takeWhile isCodeBlank).reverse
  let body := cs.take (cs.length - blank.length)
  let start := blank.takeWhile (· != '\n')
  if start.length < blank.length then body ++ start ++ ['\n'] else cs

/-- Drops the spaces and tabs that stand directly before a line feed. -/
def dropLineEndBlank : List Char → List Char
  | [] => []
  | c :: rest =>
    let rest' := dropLineEndBlank rest
    if (c == ' ' || c == '\t') && rest'.head? == some '\n' then rest' else c :: rest'

/-- The final tidying of generated code: no blank lines at the start, at most one line feed at
the end, no space before a line feed. -/
def tidy (code : String) : String :=
  String.ofList (dropLineEndBlank (dropTrailingBlank (dropLeadingBlank code.toList)))

end Blockwright.Text

/-!
## Wrapping at a column

Words are put on one line as long as they fit. The blanks at a break are dropped, a line feed
in the text always breaks, and a word that is too long for a line is left whole.
-/

namespace Blockwright.Text

/-- Wraps what is left of a text. `column` is the width already written on the line, `blanks`
the blanks that wait behind it and `word` the word that waits behind those. -/
def wrapFrom (limit : Nat) : Nat → List Char → List Char → List Char → List Char
  | column, blanks, word, [] =>
    if word.isEmpty then (if column + blanks.length ≤ limit then blanks else [])
    else blanks ++ word
  | column, blanks, word, c :: rest =>
    if c = '\n' then
      let line :=
        if word.isEmpty then (if column + blanks.length > limit then [] else blanks)
        else blanks ++ word
      line ++ '\n' :: wrapFrom limit 0 [] [] rest
    else if isBlank c && c != '\u00A0' then
      if blanks.isEmpty || !word.isEmpty then
        blanks ++ word ++ wrapFrom limit (column + blanks.length + word.length) [c] [] rest
      else wrapFrom limit column (blanks ++ [c]) word rest
    else
      let word := word ++ [c]
      if column + word.length + blanks.length > limit && word.length < limit then
        '\n' :: wrapFrom limit 0 [] word rest
      else wrapFrom limit column blanks word rest

/-- Wraps a text at `limit` columns. -/
def wrap (limit : Nat) (text : String) : String :=
  String.ofList (wrapFrom limit 0 [] [] text.toList)

end Blockwright.Text
