import Blockwright.Emit.Helpers
import Blockwright.Emit.Loops
/-!
# Variables, colours and the custom kinds

Emitters of the blocks that get and set variables, of the blocks on colours, and of the two
custom kinds.
-/

namespace Blockwright.Emit

/-- The value of a variable. -/
def variablesGet : Emitter := fun s => do return .value (← s.variableName "VAR") Order.atomic

/-- Sets a variable. -/
def variablesSet : Emitter := fun s => do
  let code ← s.valueOr "VALUE" Order.assignment "0"
  return .statement ((← s.variableName "VAR") ++ " = " ++ code ++ ";\n")

/-- A literal colour. -/
def colourPicker : Emitter := fun s =>
  return .value (Text.quote (s.head.field "COLOUR")) Order.atomic

/-- A random colour. -/
def colourRandom : Emitter := fun _ => do
  let fn ← provide "colourRandom" Helpers.colourRandom
  return .value (fn ++ "()") Order.functionCall

/-- A colour of three percentages. -/
def colourRgb : Emitter := fun s => do
  let red ← s.valueOr "RED" Order.comma "0"
  let green ← s.valueOr "GREEN" Order.comma "0"
  let blue ← s.valueOr "BLUE" Order.comma "0"
  let fn ← provide "colourRgb" Helpers.colourRgb
  return .value (fn ++ "(" ++ red ++ ", " ++ green ++ ", " ++ blue ++ ")") Order.functionCall

/-- A colour between two colours. -/
def colourBlend : Emitter := fun s => do
  let first ← s.valueOr "COLOUR1" Order.comma "'#000000'"
  let second ← s.valueOr "COLOUR2" Order.comma "'#000000'"
  let ratio ← s.valueOr "RATIO" Order.comma "0.5"
  let fn ← provide "colourBlend" Helpers.colourBlend
  return .value (fn ++ "(" ++ first ++ ", " ++ second ++ ", " ++ ratio ++ ")") Order.functionCall

/-- The number of letters of a text. -/
def stringLength : Emitter := fun s => do
  let code ← s.valueOr "VALUE" Order.member "''"
  return .value (code ++ ".length") Order.member

/-- A loop that tests its condition behind its body. -/
def repeatWhile : Emitter := fun s => do
  let condition ← s.valueOr "COND" Order.none "false"
  let body ← loopBody s "BODY"
  return .statement ("do \x7b\n" ++ body ++ "\x7d while (" ++ condition ++ ");\n")

/-- The emitters of this module. -/
def vars : List (String × Emitter) := [
  ("variables_get", variablesGet), ("variables_get_dynamic", variablesGet),
  ("variables_set", variablesSet), ("variables_set_dynamic", variablesSet),
  ("colour_picker", colourPicker), ("colour_random", colourRandom), ("colour_rgb", colourRgb),
  ("colour_blend", colourBlend), ("string_length", stringLength), ("repeat_while", repeatWhile)]

end Blockwright.Emit
