import Blockwright.Text.Chars
/-!
# The operators of generated code

The grammar that generated expressions are read with: signs bind tightest, then products, sums,
comparisons of size, comparisons for equality, `&&`, `||`, and the choice between two values. The
operators between two operands group to the left, the choice to the right.
-/

namespace Blockwright.Operators

open Text

/-! ## Trees -/

/-- The operators between two operands. -/
inductive Binary where
  | mul | div | rem | add | sub | lt | le | gt | ge | eq | ne | and | or
deriving DecidableEq, Repr

/-- How loosely an operator binds. -/
def Binary.level : Binary → Nat
  | .mul | .div | .rem => 1
  | .add | .sub => 2
  | .lt | .le | .gt | .ge => 3
  | .eq | .ne => 4
  | .and => 5
  | .or => 6

/-- A tree of operators over leaves. -/
inductive OpTree (α : Type) where
  | leaf (a : α)
  | neg (a : OpTree α)
  | not (a : OpTree α)
  | binary (op : Binary) (a b : OpTree α)
  | choice (condition yes no : OpTree α)
deriving DecidableEq, Repr

/-- The tree with every leaf replaced. -/
def OpTree.map {α β : Type} (f : α → β) : OpTree α → OpTree β
  | .leaf a => .leaf (f a)
  | .neg a => .neg (a.map f)
  | .not a => .not (a.map f)
  | .binary op a b => .binary op (a.map f) (b.map f)
  | .choice c y n => .choice (c.map f) (y.map f) (n.map f)

/-! ## Tokens -/

/-- What code is made of: words and numbers, operators, and marks. A minus sign is the operator
wherever it stands. -/
inductive Token where
  | leaf (text : String)
  | binary (op : Binary)
  | bang
  | opening
  | closing
  | question
  | colon
deriving DecidableEq, Repr

/-- Where a scanner stands in a word or in the parts of a number. -/
inductive Phase where
  | word
  | whole
  | fraction
  /-- Behind the letter of an exponent. -/
  | mark
  /-- Behind the sign of an exponent. -/
  | sign
  | exponent
deriving DecidableEq, Repr

namespace Phase

/-- The phase that a first character starts. -/
def start? (c : Char) : Option Phase :=
  if isDigit c then some .whole else if isWordChar c then some .word else none

/-- The phase behind one more character, if that still belongs to the word or number. -/
def next? : Phase → Char → Option Phase
  | .word, c => if isWordChar c then some .word else none
  | .whole, c =>
    if isDigit c then some .whole else if c = '.' then some .fraction
    else if c = 'e' || c = 'E' then some .mark else none
  | .fraction, c => if isDigit c then some .fraction else if c = 'e' || c = 'E' then some .mark else none
  | .mark, c => if isDigit c then some .exponent else if c = '+' || c = '-' then some .sign else none
  | .sign, c => if isDigit c then some .exponent else none
  | .exponent, c => if isDigit c then some .exponent else none

/-- Whether a word or number may end here. -/
def mayEnd : Phase → Bool
  | .mark | .sign => false
  | _ => true

end Phase

/-- The rest of a word or number, and what follows it. No letter or digit may follow directly. -/
def scan : Phase → List Char → Option (List Char × List Char)
  | phase, [] => if phase.mayEnd then some ([], []) else none
  | phase, c :: cs =>
    match phase.next? c with
    | some phase => (scan phase cs).map fun r => (c :: r.1, r.2)
    | none => if phase.mayEnd && !isWordChar c then some ([], c :: cs) else none

/-- The operator or mark that code starts with. Two minus signs in a row are another operator of
the language. -/
def symbol? : List Char → Option (Token × List Char)
  | '=' :: '=' :: rest => some (.binary .eq, rest)
  | '!' :: '=' :: rest => some (.binary .ne, rest)
  | '<' :: '=' :: rest => some (.binary .le, rest)
  | '>' :: '=' :: rest => some (.binary .ge, rest)
  | '&' :: '&' :: rest => some (.binary .and, rest)
  | '|' :: '|' :: rest => some (.binary .or, rest)
  | '-' :: '-' :: _ => none
  | '<' :: rest => some (.binary .lt, rest)
  | '>' :: rest => some (.binary .gt, rest)
  | '+' :: rest => some (.binary .add, rest)
  | '-' :: rest => some (.binary .sub, rest)
  | '*' :: rest => some (.binary .mul, rest)
  | '/' :: rest => some (.binary .div, rest)
  | '%' :: rest => some (.binary .rem, rest)
  | '!' :: rest => some (.bang, rest)
  | '(' :: rest => some (.opening, rest)
  | ')' :: rest => some (.closing, rest)
  | '?' :: rest => some (.question, rest)
  | ':' :: rest => some (.colon, rest)
  | _ => none

theorem length_scan {phase : Phase} {cs body after : List Char} (h : scan phase cs = some (body, after)) :
    after.length ≤ cs.length := by
  induction cs generalizing phase body with
  | nil =>
    unfold scan at h
    split at h
    · cases h; exact Nat.le_refl _
    · cases h
  | cons c cs ih =>
    unfold scan at h
    split at h
    · obtain ⟨r, hr, he⟩ := Option.map_eq_some_iff.1 h
      cases he
      exact Nat.le_succ_of_le (ih hr)
    · split at h
      · cases h; exact Nat.le_refl _
      · cases h

theorem length_symbol? {cs after : List Char} {token : Token} (h : symbol? cs = some (token, after)) :
    after.length < cs.length := by
  unfold symbol? at h
  split at h <;> cases h <;> simp only [List.length_cons] <;> omega

/-- The tokens of code. -/
def lex (cs : List Char) : Option (List Token) :=
  match cs with
  | [] => some []
  | c :: rest =>
    match Phase.start? c with
    | some phase =>
      match _hscan : scan phase rest with
      | some (body, after) => (lex after).map (Token.leaf (String.ofList (c :: body)) :: ·)
      | none => none
    | none =>
      if c = ' ' then lex rest
      else
        match _hsymbol : symbol? (c :: rest) with
        | some (token, after) => (lex after).map (token :: ·)
        | none => none
termination_by cs.length
decreasing_by
  · exact Nat.lt_succ_of_le (length_scan _hscan)
  · exact Nat.lt_succ_self _
  · exact length_symbol? _hsymbol

/-! ## Expressions -/

-- Every part takes at least one token, so the comparisons of lengths always hold; the recursion
-- is founded on them.
mutual

/-- An operand with its signs. -/
def operand (ts : List Token) : Option (OpTree String × List Token) :=
  match ts with
  | .leaf text :: rest => some (.leaf text, rest)
  | .binary .sub :: rest => (operand rest).map fun r => (.neg r.1, r.2)
  | .bang :: rest => (operand rest).map fun r => (.not r.1, r.2)
  | .opening :: rest =>
    match expression rest with
    | some (t, .closing :: after) => some (t, after)
    | _ => none
  | _ => none
termination_by (ts.length, 0)

/-- Operands and the operators of levels up to `n` between them. -/
def operators (n : Nat) (ts : List Token) : Option (OpTree String × List Token) :=
  match n with
  | 0 => operand ts
  | n + 1 =>
    match operators n ts with
    | some (t, rest) => if rest.length < ts.length then chain (n + 1) t rest else none
    | none => none
termination_by (ts.length, n + 1)

/-- What the operators of level `n` add to a tree, from left to right. -/
def chain (n : Nat) (t : OpTree String) (ts : List Token) : Option (OpTree String × List Token) :=
  match ts with
  | .binary op :: rest =>
    if op.level = n then
      match operators (n - 1) rest with
      | some (u, after) =>
        if after.length < (Token.binary op :: rest).length then chain n (.binary op t u) after else none
      | none => none
    else some (t, .binary op :: rest)
  | rest => some (t, rest)
termination_by (ts.length, 0)

/-- An expression: operators, then perhaps a choice. -/
def expression (ts : List Token) : Option (OpTree String × List Token) :=
  match operators 6 ts with
  | some (c, .question :: rest) =>
    if rest.length < ts.length then
      match expression rest with
      | some (y, .colon :: after) =>
        if after.length < ts.length then (expression after).map fun r => (.choice c y r.1, r.2) else none
      | _ => none
    else none
  | r => r
termination_by (ts.length, 8)

end

/-- The tree of code that is one expression. -/
def parse (code : String) : Option (OpTree String) :=
  match (lex code.toList).bind expression with
  | some (t, []) => some t
  | _ => none

end Blockwright.Operators
