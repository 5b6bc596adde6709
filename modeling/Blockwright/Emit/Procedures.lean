import Blockwright.Emit.Lists
import Blockwright.Emit.Loops
/-!
# Procedures

Emitters of the definitions of procedures, of calls and of early returns.
-/

namespace Blockwright.Emit

/-- What a parameter's name is asked for by: its id, or its name when it has none. -/
def paramKey (p : Param) : String := if p.id = "" then p.name else p.id

/-- A definition. Its code goes in front of the program under the procedure's name, with the
block's comments, and nothing is left in place. -/
def proceduresDef : Emitter := fun s => do
  let fn ← procedureName (s.head.written "NAME")
  let body ← loopBody s "STACK"
  let result ← s.value "RETURN" Order.none
  let last ← do
    if result = "" then pure "" else pure ((← Emit.indent) ++ "return " ++ result ++ ";\n")
  let params ← s.head.extra.params.mapM fun p => name (paramKey p) .variable
  let code := "function " ++ fn ++ "(" ++ Text.joinWith ", " params ++ ") \x7b\n" ++ body ++ last
    ++ "\x7d"
  define ("%" ++ fn) (← s.dress code false)
  return .handled

/-- A call. It has an argument for each parameter and each socket of an argument. -/
def procedureCall (s : Site) : Emit String := do
  let fn ← procedureName ((s.head.written? "NAME").getD s.head.extra.name)
  let count := (max (s.head.extra.params.length : Int) (socketCount s.block "ARG")).toNat
  let arguments ← numbered s "ARG" count Order.comma "null"
  return fn ++ "(" ++ Text.joinWith ", " arguments ++ ")"

/-- A call whose result is used. -/
def proceduresCallReturn : Emitter := fun s => do
  return .value (← procedureCall s) Order.functionCall

/-- A call that is a statement. -/
def proceduresCallNoReturn : Emitter := fun s => do
  return .statement ((← procedureCall s) ++ ";\n")

/-- A return under a condition, with a value if the procedure has one. -/
def proceduresIfReturn : Emitter := fun s => do
  let condition ← s.valueOr "CONDITION" Order.none "false"
  let last ← do
    if s.head.extra.hasReturnValue || s.hasSocket "VALUE" then
      pure ("return " ++ (← s.valueOr "VALUE" Order.none "null") ++ ";\n")
    else pure "return;\n"
  return .statement ("if (" ++ condition ++ ") \x7b\n" ++ (← Emit.indent) ++ last ++ "\x7d\n")

/-- The emitters of this module. -/
def procedures : List (String × Emitter) := [
  ("procedures_defreturn", proceduresDef), ("procedures_defnoreturn", proceduresDef),
  ("procedures_callreturn", proceduresCallReturn),
  ("procedures_callnoreturn", proceduresCallNoReturn),
  ("procedures_ifreturn", proceduresIfReturn)]

end Blockwright.Emit
