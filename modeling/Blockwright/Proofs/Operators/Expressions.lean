import Blockwright.Number.Read
import Blockwright.Number.Text
import Blockwright.Proofs.Names.Requests
import Blockwright.Proofs.Operators.Lexing
import Blockwright.Workspace.Block
/-!
# Blocks of operators

The tree that a block stands for when it and all that is plugged into it are operators on
numbers, truth values and variables. Nothing here speaks of code.
-/

namespace Blockwright

namespace Operators

/-! ## Leaves -/

/-- A leaf of a block's tree: a literal, or a variable by its key. -/
inductive Leaf where
  | literal (text : String) (written : isLeaf text = true)
  | named (key : RawText)
deriving DecidableEq, Repr

namespace Leaf

/-- The name that a leaf asks for. -/
def request? : Leaf → Option Names.Request
  | .literal .. => none
  | .named key => some (.get key .variable)

/-- The text of a leaf where variables have the names of a registry. -/
def text (n : Names) : Leaf → String
  | .literal text _ => text
  | .named key => (n.get key .variable).1

/-- The number zero. -/
def zero : Leaf := .literal "0" (by decide)

/-- A truth value. -/
def truth (b : Bool) : Leaf := .literal (Text.ofBool b) (by cases b <;> decide)

/-- The value that stands for nothing. -/
def nothing : Leaf := .literal "null" (by decide)

end Leaf

/-- The names that leaves ask for, in order. -/
def requests (leaves : List Leaf) : List Names.Request := leaves.filterMap Leaf.request?

/-! ## Kinds of blocks -/

/-- What stands in the sockets of a block, by name: nothing, or a block with its tree, if that
has one. -/
abbrev Parts := List (String × Option (Option (OpTree Leaf)))

namespace Parts

/-- What stands in the socket of a name. -/
def get (parts : Parts) (socket : String) : Option (Option (OpTree Leaf)) := (parts.lookup socket).join

/-- The tree in a socket, or `fallback` when nothing stands there. -/
def tree? (parts : Parts) (socket : String) (fallback : Leaf) : Option (OpTree Leaf) :=
  (parts.get socket).getD (some (.leaf fallback))

end Parts

/-- The tree of a block of one kind. -/
abbrev Reading := Head → Parts → Option (OpTree Leaf)

namespace Reading

/-- A decimal without a sign. -/
def decimal? (text : String) : Option (OpTree Leaf) :=
  if h : isDecimal text = true then some (.leaf (.literal text (isLeaf_of_isDecimal h))) else none

/-- A number that is written as a decimal, with a minus sign in front when it is negative. An
empty one is zero. -/
def number : Reading := fun head _ =>
  let text := Text.trim (head.field "NUM")
  if text = "" then some (.leaf .zero)
  else
    match Double.read text with
    | .error _ => none
    | .ok n =>
      if n.isNegative then
        (Text.dropStart? ['-'] n.format.toList).bind fun digits => (decimal? (String.ofList digits)).map .neg
      else decimal? n.format

/-- An operator between two sockets that both fall back on one literal. -/
def between (op : Binary) (left right : String) (fallback : Leaf) (parts : Parts) : Option (OpTree Leaf) := do
  return .binary op (← parts.tree? left fallback) (← parts.tree? right fallback)

/-- The arithmetic operators by option. -/
def arithmetics : List (String × Binary) := [("ADD", .add), ("MINUS", .sub), ("MULTIPLY", .mul), ("DIVIDE", .div)]

/-- An arithmetic operation; a missing operand is zero. -/
def arithmetic : Reading := fun head parts => do
  between (← arithmetics.lookup (head.field "OP")) "A" "B" .zero parts

/-- A remainder; a missing operand is zero. -/
def remainder : Reading := fun _ parts => between .rem "DIVIDEND" "DIVISOR" .zero parts

/-- The change of a number's sign. -/
def sign : Reading := fun head parts =>
  if head.field "OP" = "NEG" then (parts.tree? "NUM" .zero).map .neg else none

/-- The comparisons by option. -/
def comparisons : List (String × Binary) :=
  [("EQ", .eq), ("NEQ", .ne), ("LT", .lt), ("LTE", .le), ("GT", .gt), ("GTE", .ge)]

/-- A comparison; a missing operand is zero. -/
def comparison : Reading := fun head parts => do
  between (← comparisons.lookup (head.field "OP")) "A" "B" .zero parts

/-- The logical operators by option, each with its identity. -/
def logicals : List (String × Binary × Bool) := [("AND", .and, true), ("OR", .or, false)]

/-- A logical operation. A missing operand is the identity of the operator, and with both missing
the block is the literal `false`. -/
def logical : Reading := fun head parts => do
  let (op, identity) ← logicals.lookup (head.field "OP")
  if (parts.get "A").isNone && (parts.get "B").isNone then return .leaf (.truth false)
  else between op "A" "B" (.truth identity) parts

/-- A negation; what is missing is true. -/
def negation : Reading := fun _ parts => (parts.tree? "BOOL" (.truth true)).map .not

/-- A choice; a missing condition is false, and a missing value is nothing. -/
def choice : Reading := fun _ parts => do
  return .choice (← parts.tree? "IF" (.truth false)) (← parts.tree? "THEN" .nothing) (← parts.tree? "ELSE" .nothing)

/-- The value of a variable. -/
def variableUse : Reading := fun head _ => some (.leaf (.named (head.written "VAR")))

/-- A truth value. -/
def truth : Reading := fun head _ => some (.leaf (.truth (head.field "BOOL" = "TRUE")))

/-- The value that stands for nothing. -/
def nothing : Reading := fun _ _ => some (.leaf .nothing)

/-- The kinds of blocks that are operators or their leaves. -/
def all : List (String × Reading) := [
  ("math_number", number), ("math_arithmetic", arithmetic), ("math_modulo", remainder), ("math_single", sign),
  ("logic_compare", comparison), ("logic_operation", logical), ("logic_negate", negation),
  ("logic_ternary", choice), ("variables_get", variableUse), ("logic_boolean", truth), ("logic_null", nothing)]

end Reading
end Operators

/-! ## Blocks -/

namespace Block

open Operators

mutual

/-- The tree of a block that is emitted as a value, if it is made of operators only. -/
def tree? : Block → Option (OpTree Leaf)
  | ⟨head, sockets, _⟩ =>
    if head.disabled || (head.link != .value && head.link != .top) then none
    else (Reading.all.lookup head.kind).bind fun reading => reading head (parts sockets)

/-- What stands in sockets. A disabled block is as good as none. -/
def parts : List Socket → Parts
  | [] => []
  | ⟨name, _, none⟩ :: rest => (name, none) :: parts rest
  | ⟨name, _, some b⟩ :: rest => (name, if b.head.disabled then none else some (tree? b)) :: parts rest

end

/-- Neither the block nor anything in it has a comment or a block chained behind it. -/
def Bare (b : Block) : Prop := ∀ c ∈ b.blocks, c.head.comment = "" ∧ c.next.isNone = true

end Block
end Blockwright
