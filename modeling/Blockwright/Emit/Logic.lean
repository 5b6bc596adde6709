import Blockwright.Emit.Site
/-!
# Conditions

Emitters of the if blocks and of comparisons, logical operators and truth values.
-/

namespace Blockwright.Emit

/-- How many branches an if block has: one, one for each else-if of its mutator, and those whose
conditions follow on without a gap. -/
def branchCount (s : Site) : Nat :=
  let base := max 1 (s.head.extra.elseIfCount + 1).toNat
  let gap := (List.range (s.block.sockets.length + 1)).find? fun i =>
    !s.hasSocket ("IF" ++ Text.ofNat (base + i))
  base + gap.getD 0

/-- The code of one branch. -/
def ifBranch (s : Site) (n : Nat) : Emit String := do
  let condition ← s.valueOr ("IF" ++ Text.ofNat n) Order.none "false"
  let body ← s.statements ("DO" ++ Text.ofNat n)
  return "if (" ++ condition ++ ") \x7b\n" ++ body ++ "\x7d"

/-- Whether an if block ends with an else branch. -/
def hasElse (s : Site) : Bool :=
  s.head.kind = "controls_ifelse" || s.head.extra.hasElse || s.hasSocket "ELSE"

/-- The branches of an if block, then perhaps an else branch. -/
def controlsIf : Emitter := fun s => do
  let branches ← (List.range (branchCount s)).mapM (ifBranch s)
  let code := Text.joinWith " else " branches
  if hasElse s then
    let body ← s.statements "ELSE"
    return .statement (code ++ " else \x7b\n" ++ body ++ "\x7d\n")
  else return .statement (code ++ "\n")

/-- The comparison operators by option. -/
def comparisons : List (String × String) := [
  ("EQ", "=="), ("NEQ", "!="), ("LT", "<"), ("LTE", "<="), ("GT", ">"), ("GTE", ">=")]

/-- A comparison of two values. -/
def logicCompare : Emitter := fun s => do
  let some op := comparisons.lookup (s.head.field "OP") | s.unhandled "OP"
  let order := if op = "==" || op = "!=" then Order.equality else Order.relational
  let a ← s.valueOr "A" order "0"
  let b ← s.valueOr "B" order "0"
  return .value (a ++ " " ++ op ++ " " ++ b) order

/-- A logical operator with its identity element and its precedence. -/
structure LogicalOperator where
  symbol : String
  identity : String
  order : Order

/-- The logical operators by option. -/
def logicalOperators : List (String × LogicalOperator) := [
  ("AND", ⟨"&&", "true", Order.logicalAnd⟩), ("OR", ⟨"||", "false", Order.logicalOr⟩)]

/-- A logical operation. One missing operand is the operator's identity; with both missing the
whole is false. -/
def logicOperation : Emitter := fun s => do
  let some op := logicalOperators.lookup (s.head.field "OP") | s.unhandled "OP"
  let a ← s.value "A" op.order
  let b ← s.value "B" op.order
  if a = "" && b = "" then return .value "false" Order.atomic
  else
    let a := if a = "" then op.identity else a
    let b := if b = "" then op.identity else b
    return .value (a ++ " " ++ op.symbol ++ " " ++ b) op.order

/-- A negation. -/
def logicNegate : Emitter := fun s => do
  let code ← s.valueOr "BOOL" Order.logicalNot "true"
  return .value ("!" ++ code) Order.logicalNot

/-- A truth value. -/
def logicBoolean : Emitter := fun s =>
  return .value (if s.head.field "BOOL" = "TRUE" then "true" else "false") Order.atomic

/-- The value that stands for nothing. -/
def logicNull : Emitter := fun _ => return .value "null" Order.atomic

/-- A choice between two values. -/
def logicTernary : Emitter := fun s => do
  let condition ← s.valueOr "IF" Order.conditional "false"
  let yes ← s.valueOr "THEN" Order.conditional "null"
  let no ← s.valueOr "ELSE" Order.conditional "null"
  return .value (condition ++ " ? " ++ yes ++ " : " ++ no) Order.conditional

/-- The emitters of this module. -/
def logic : List (String × Emitter) := [
  ("controls_if", controlsIf), ("controls_ifelse", controlsIf), ("logic_compare", logicCompare),
  ("logic_operation", logicOperation), ("logic_negate", logicNegate),
  ("logic_boolean", logicBoolean), ("logic_null", logicNull), ("logic_ternary", logicTernary)]

end Blockwright.Emit
