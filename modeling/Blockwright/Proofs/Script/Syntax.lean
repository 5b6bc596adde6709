import Blockwright.Proofs.Names.Identifiers
/-!
# The language of generated code

The part of the language that blocks on lists and texts are written in: names, whole numbers,
sums and differences, properties, items, calls of methods, assignments, and functions that
declare variables and give back a value. Code is cut into tokens and read as a tree; what has no
reading here has none at all.
-/

namespace Blockwright.Script

open Text

/-! ## Tokens -/

/-- What code is made of. -/
inductive Token where
  | word (text : String)
  | number (value : Nat)
  | plus
  | minus
  | equals
  | dot
  | comma
  | semicolon
  | opening
  | closing
  | openingBracket
  | closingBracket
  | openingBrace
  | closingBrace
deriving DecidableEq, Repr

namespace Token

/-- The mark that a character is. -/
def ofMark? : Char → Option Token
  | '+' => some .plus
  | '-' => some .minus
  | '=' => some .equals
  | '.' => some .dot
  | ',' => some .comma
  | ';' => some .semicolon
  | '(' => some .opening
  | ')' => some .closing
  | '[' => some .openingBracket
  | ']' => some .closingBracket
  | '\x7b' => some .openingBrace
  | '\x7d' => some .closingBrace
  | _ => none

/-- Two of these in a row are another operator of the language. -/
def isSign : Token → Bool
  | .plus | .minus | .equals => true
  | _ => false

/-- The token that a run of word characters is: a word, or a number in decimal digits. -/
def ofWord? : List Char → Option Token
  | [] => none
  | c :: cs =>
    if !isDigit c then some (.word (String.ofList (c :: cs)))
    else
      let n := Nat.ofDigitChars 10 (c :: cs) 0
      if Nat.toDigits 10 n = c :: cs then some (.number n) else none

end Token

/-- Where a scanner stands: the tokens behind it, the last one first, the word that it is in, and
whether a sign is directly behind it. -/
structure Scanner where
  tokens : List Token := []
  word : List Char := []
  behindSign : Bool := false

namespace Scanner

/-- The tokens when the word ends here, the last one first. -/
def ended? (s : Scanner) : Option (List Token) :=
  if s.word.isEmpty then some s.tokens else (Token.ofWord? s.word).map (· :: s.tokens)

/-- Takes one character. A point behind a digit would be part of the number. -/
def step (s : Scanner) (c : Char) : Option Scanner :=
  if isWordChar c then some { s with word := s.word ++ [c], behindSign := false }
  else
    match s.ended? with
    | none => none
    | some tokens =>
      if isCodeBlank c then some { tokens }
      else
        match Token.ofMark? c with
        | none => none
        | some mark =>
          if (mark.isSign && s.behindSign) || (mark = .dot && s.word.head?.any isDigit) then none
          else some { tokens := mark :: tokens, behindSign := mark.isSign }

end Scanner

/-- The tokens of code. -/
def tokens? (cs : List Char) : Option (List Token) :=
  ((cs.foldlM Scanner.step {}).bind Scanner.ended?).map List.reverse

/-! ## Trees -/

/-- An expression. -/
inductive Expr where
  | number (value : Nat)
  | name (text : String)
  | negative (a : Expr)
  | sum (a b : Expr)
  | difference (a b : Expr)
  | member (a : Expr) (property : String)
  | item (a index : Expr)
  | call (callee : Expr) (arguments : List Expr)

/-- A statement. -/
inductive Statement where
  | expression (a : Expr)
  | assignment (target value : Expr)

/-- A function: it declares variables one after the other and gives back a value. -/
structure Function where
  name : String
  parameters : List String
  declarations : List (String × Expr)
  result : Expr

/-! ## Reading -/

-- Every part takes a token or hands over to a part that does, so a few more steps than twice the
-- number of tokens are enough for any reading.
mutual

/-- An operand with its signs and with all that is done to it. -/
def operand : Nat → List Token → Option (Expr × List Token)
  | 0, _ => none
  | _ + 1, .number n :: ts => some (.number n, ts)
  | steps + 1, .word x :: ts => uses steps (.name x) ts
  | steps + 1, .minus :: ts => (operand steps ts).map fun r => (.negative r.1, r.2)
  | steps + 1, .opening :: ts =>
    match expression steps ts with
    | some (a, .closing :: ts) => uses steps a ts
    | _ => none
  | _ + 1, _ => none

/-- What is done to an operand: a property, an item or a call, and then more. -/
def uses : Nat → Expr → List Token → Option (Expr × List Token)
  | 0, _, _ => none
  | steps + 1, a, .dot :: .word x :: ts => uses steps (.member a x) ts
  | steps + 1, a, .openingBracket :: ts =>
    match expression steps ts with
    | some (index, .closingBracket :: ts) => uses steps (.item a index) ts
    | _ => none
  | steps + 1, a, .opening :: .closing :: ts => uses steps (.call a []) ts
  | steps + 1, a, .opening :: ts =>
    match arguments steps ts with
    | some (arguments, ts) => uses steps (.call a arguments) ts
    | none => none
  | _ + 1, a, ts => some (a, ts)

/-- The arguments of a call, of which there is at least one, and the parenthesis behind them. -/
def arguments : Nat → List Token → Option (List Expr × List Token)
  | 0, _ => none
  | steps + 1, ts =>
    match expression steps ts with
    | some (a, .closing :: ts) => some ([a], ts)
    | some (a, .comma :: ts) => (arguments steps ts).map fun r => (a :: r.1, r.2)
    | _ => none

/-- An expression. -/
def expression : Nat → List Token → Option (Expr × List Token)
  | 0, _ => none
  | steps + 1, ts =>
    match operand steps ts with
    | some (a, ts) => terms steps a ts
    | none => none

/-- What is added to an expression and taken from it, from left to right. -/
def terms : Nat → Expr → List Token → Option (Expr × List Token)
  | 0, _, _ => none
  | steps + 1, a, .plus :: ts =>
    match operand steps ts with
    | some (b, ts) => terms steps (.sum a b) ts
    | none => none
  | steps + 1, a, .minus :: ts =>
    match operand steps ts with
    | some (b, ts) => terms steps (.difference a b) ts
    | none => none
  | _ + 1, a, ts => some (a, ts)

end

/-- An expression in front of tokens. -/
def readExpr (ts : List Token) : Option (Expr × List Token) := expression (2 * ts.length + 1) ts

/-- The tree of tokens that are one expression. -/
def Expr.parse (ts : List Token) : Option Expr :=
  match readExpr ts with
  | some (a, []) => some a
  | _ => none

/-- The tree of tokens that are one statement. -/
def Statement.parse (ts : List Token) : Option Statement :=
  match readExpr ts with
  | some (a, [.semicolon]) => some (.expression a)
  | some (target, .equals :: ts) =>
    match readExpr ts with
    | some (value, [.semicolon]) => some (.assignment target value)
    | _ => none
  | _ => none

/-- The parameters of a function, of which there is at least one, and the parenthesis behind them. -/
def readParameters : List Token → Option (List String × List Token)
  | .word x :: .closing :: ts => some ([x], ts)
  | .word x :: .comma :: ts => (readParameters ts).map fun r => (x :: r.1, r.2)
  | _ => none

/-- The declarations and the result that a function's body is made of, with the brace behind it, when
there are at most so many declarations. -/
def readBody : Nat → List Token → Option (List (String × Expr) × Expr)
  | _, .word "return" :: ts =>
    match readExpr ts with
    | some (result, [.semicolon, .closingBrace]) => some ([], result)
    | _ => none
  | steps + 1, .word "var" :: .word x :: .equals :: ts =>
    match readExpr ts with
    | some (value, .semicolon :: ts) => (readBody steps ts).map fun r => ((x, value) :: r.1, r.2)
    | _ => none
  | _, _ => none

/-- The tree of tokens that are one function. -/
def Function.parse : List Token → Option Function
  | .word "function" :: .word name :: .opening :: ts =>
    match readParameters ts with
    | some (parameters, .openingBrace :: ts) =>
      (readBody ts.length ts).map fun r => { name, parameters, declarations := r.1, result := r.2 }
    | _ => none
  | _ => none

end Blockwright.Script
