import Blockwright.Emit.Loops
import Blockwright.Proofs.Operators.Printing
/-!
# Headers of counting loops

The part of the language that a counting loop is headed with: assignments of numbers to variables, one
of them under a condition, and then the loop with its start, its test and its update. Code is cut into
lines, and tests and operands are read by the grammar of operators. What stands behind the header is
the body, at which the reading does not look.
-/

namespace Blockwright.Loops

open Operators Text

/-! ## Trees -/

/-- A numeral or the name of a variable, perhaps behind a minus sign. -/
structure Atom where
  negative : Bool
  leaf : String
deriving DecidableEq, Repr

/-- A condition. -/
inductive Test where
  | atMost (a b : Atom)
  | atLeast (a b : Atom)
  | above (a b : Atom)
  | choice (condition yes no : Test)
deriving DecidableEq, Repr

/-- What is done to a variable. -/
inductive Change where
  | set (a : Atom)
  /-- Sets the variable to a number without its sign. -/
  | size (a : Atom)
  | increment
  | decrement
  | add (a : Atom)
  | subtract (a : Atom)
deriving DecidableEq, Repr

/-- A variable by its name, and what is done to it. -/
structure Assignment where
  name : String
  change : Change
deriving DecidableEq, Repr

/-- What is done in front of a loop. -/
inductive Line where
  | always (s : Assignment)
  | when (test : Test) (s : Assignment)
deriving DecidableEq, Repr

/-- The header of a loop. -/
structure Loop where
  before : List Line
  start : Assignment
  test : Test
  update : Assignment
deriving DecidableEq, Repr

/-! ## Writing -/

namespace Atom

/-- The atom as a tree of operators. -/
def tree (a : Atom) : OpTree String := if a.negative then .neg (.leaf a.leaf) else .leaf a.leaf

/-- The atom as it is written. -/
def code (a : Atom) : String := a.tree.code

end Atom

namespace Test

/-- The condition as a tree of operators. -/
def tree : Test → OpTree String
  | .atMost a b => .binary .le a.tree b.tree
  | .atLeast a b => .binary .ge a.tree b.tree
  | .above a b => .binary .gt a.tree b.tree
  | .choice c y n => .choice c.tree y.tree n.tree

/-- The condition as it is written. -/
def code (t : Test) : String := t.tree.code

end Test

/-- What is done to a variable, as it is written behind its name. -/
def Change.code : Change → String
  | .set a => " = " ++ a.code
  | .size a => " = Math.abs(" ++ a.code ++ ")"
  | .increment => "++"
  | .decrement => "--"
  | .add a => " += " ++ a.code
  | .subtract a => " -= " ++ a.code

/-- An assignment as it is written. -/
def Assignment.code (s : Assignment) : String := s.name ++ s.change.code

/-- A line in front of a loop, as it is written under an indentation. Its variable is declared unless the
line stands under a condition. -/
def Line.code (indent : String) : Line → String
  | .always s => "var " ++ s.code ++ ";\n"
  | .when test s => "if (" ++ test.code ++ ") \x7b\n" ++ indent ++ s.code ++ ";\n\x7d\n"

/-- Lines in front of a loop as they are written. -/
def linesCode (indent : String) : List Line → String
  | [] => ""
  | line :: lines => line.code indent ++ linesCode indent lines

/-- A header as it is written under an indentation. -/
def Loop.code (indent : String) (l : Loop) : String :=
  linesCode indent l.before ++ "for (" ++ l.start.code ++ "; " ++ l.test.code ++ "; " ++ l.update.code ++ ") \x7b\n"

/-! ## Reading -/

/-- What stands between an opening and a closing text. -/
def enclosed? (opening closing : String) (cs : List Char) : Option (List Char) := do
  let rest ← dropStart? opening.toList cs
  let inner ← dropStart? closing.toList.reverse rest.reverse
  return inner.reverse

/-- The atom that a tree of operators is. -/
def Atom.ofTree? : OpTree String → Option Atom
  | .leaf text => some ⟨false, text⟩
  | .neg (.leaf text) => some ⟨true, text⟩
  | _ => none

/-- Reads an atom. -/
def Atom.ofChars? (cs : List Char) : Option Atom := (parse (String.ofList cs)).bind ofTree?

/-- The condition that a tree of operators is. -/
def Test.ofTree? : OpTree String → Option Test
  | .binary .le a b => do return .atMost (← Atom.ofTree? a) (← Atom.ofTree? b)
  | .binary .ge a b => do return .atLeast (← Atom.ofTree? a) (← Atom.ofTree? b)
  | .binary .gt a b => do return .above (← Atom.ofTree? a) (← Atom.ofTree? b)
  | .choice c y n => do return .choice (← ofTree? c) (← ofTree? y) (← ofTree? n)
  | _ => none

/-- Reads a condition. -/
def Test.ofChars? (cs : List Char) : Option Test := (parse (String.ofList cs)).bind ofTree?

/-- Reads what is done to a variable. -/
def Change.ofChars? : List Char → Option Change
  | ['+', '+'] => some .increment
  | ['-', '-'] => some .decrement
  | ' ' :: '=' :: ' ' :: cs =>
    match Atom.ofChars? cs with
    | some a => some (.set a)
    | none => ((enclosed? "Math.abs(" ")" cs).bind Atom.ofChars?).map .size
  | ' ' :: '+' :: '=' :: ' ' :: cs => (Atom.ofChars? cs).map .add
  | ' ' :: '-' :: '=' :: ' ' :: cs => (Atom.ofChars? cs).map .subtract
  | _ => none

/-- Reads an assignment. -/
def Assignment.ofChars? (cs : List Char) : Option Assignment :=
  (Change.ofChars? (cs.dropWhile isWordChar)).map fun change => ⟨String.ofList (cs.takeWhile isWordChar), change⟩

/-- A line of code in front of a loop's body. -/
inductive Row where
  | assignment (s : Assignment)
  | condition (test : Test)
  | closing
  | loop (start : Assignment) (test : Test) (update : Assignment)

namespace Row

/-- Reads an assignment or a declaration. -/
def assignment? (cs : List Char) : Option Assignment :=
  (enclosed? "" ";" cs).bind fun cs =>
    match Assignment.ofChars? cs with
    | some s => some s
    | none => (dropStart? "var ".toList cs).bind Assignment.ofChars?

/-- Reads the three parts of a loop. -/
def loop? (cs : List Char) : Option Row := do
  let cs ← enclosed? "for (" ") \x7b" cs
  match splitChars ';' cs with
  | [start, ' ' :: test, ' ' :: update] =>
    return .loop (← Assignment.ofChars? start) (← Test.ofChars? test) (← Assignment.ofChars? update)
  | _ => none

/-- Reads a line. -/
def ofChars? (cs : List Char) : Option Row :=
  if cs = ['\x7d'] then some .closing
  else
    match assignment? cs with
    | some s => some (.assignment s)
    | none =>
      match (enclosed? "if (" ") \x7b" cs).bind Test.ofChars? with
      | some test => some (.condition test)
      | none => loop? cs

end Row

/-- Whether a line without its indentation is code: it is not blank and no comment. -/
def isCodeLine : List Char → Bool
  | [] => false
  | '/' :: '/' :: _ => false
  | _ => true

/-- The lines of code without their indentation. -/
def codeLines (cs : List Char) : List (List Char) :=
  ((splitChars '\n' cs).map (·.dropWhile isCodeBlank)).filter isCodeLine

/-- A loop with one more line in front of it. -/
def Loop.behind (line : Line) (l : Loop) : Loop := { l with before := line :: l.before }

/-- The header that lines begin with. -/
def Loop.ofLines? : List (List Char) → Option Loop
  | [] => none
  | line :: rest =>
    match Row.ofChars? line with
    | some (.assignment s) => (ofLines? rest).map (.behind (.always s))
    | some (.condition test) =>
      match rest with
      | body :: closing :: rest =>
        match Row.ofChars? body, Row.ofChars? closing with
        | some (.assignment s), some .closing => (ofLines? rest).map (.behind (.when test s))
        | _, _ => none
      | _ => none
    | some (.loop start test update) => some { before := [], start, test, update }
    | _ => none

/-- The header that code begins with, behind comments. -/
def Loop.ofCode? (code : String) : Option Loop := Loop.ofLines? (codeLines code.toList)

end Blockwright.Loops
