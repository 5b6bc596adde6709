import Blockwright.Emit.Site
import Blockwright.Number.Read
import Blockwright.Number.Text
import Blockwright.Text.Quoted
/-!
# Loops

Emitters of the loop blocks. An operand that is neither a word nor a literal is put into a
temporary variable first, so that it is evaluated once.
-/

namespace Blockwright.Emit

/-- Puts the loop trap of the pass at the top of a body, with the block's id for its mark. -/
def trapped (s : Site) (body : String) : Emit String := do
  let settings ← read
  if settings.loopTrap = "" then return body
  else
    let trap := Text.replaceAll "%1" (Text.quote s.head.id) settings.loopTrap
    return Text.prefixLines trap settings.indent ++ body

/-- The body of a loop. -/
def loopBody (s : Site) (socket : String) : Emit String := do
  let body ← s.statements socket
  trapped s body

/-- An operand that can be repeated: a word or a literal stays, anything else goes into a
temporary variable. Gives the line that does so, and what to write for the operand. -/
def cached (code seed : String) : Emit (String × String) := do
  if Text.isWord code || Text.isNumber code then return ("", code)
  else
    let name ← distinctVariable seed
    return ("var " ++ name ++ " = " ++ code ++ ";\n", name)

/-- How often a repeat block runs: a literal field, or the value in its socket. -/
def repeats (s : Site) : Emit String :=
  match s.head.field? "TIMES" with
  | some times =>
    match Double.read (Text.trim times) with
    | .ok n => return n.format
    | .error _ => s.unhandled "TIMES"
  | none => s.valueOr "TIMES" Order.assignment "0"

/-- A loop that runs a number of times. -/
def controlsRepeat : Emitter := fun s => do
  let times ← repeats s
  let body ← loopBody s "DO"
  let loopVar ← distinctVariable "count"
  let (before, endVar) ← cached times "repeat_end"
  return .statement (before ++ "for (var " ++ loopVar ++ " = 0; " ++ loopVar ++ " < " ++ endVar
    ++ "; " ++ loopVar ++ "++) \x7b\n" ++ body ++ "\x7d\n")

/-- A loop that runs while, or until, a condition holds. -/
def controlsWhileUntil : Emitter := fun s => do
  let mode := s.head.field "MODE"
  if mode != "WHILE" && mode != "UNTIL" then s.unhandled "MODE"
  else
    let negated := mode = "UNTIL"
    let condition ← s.valueOr "BOOL" (if negated then Order.logicalNot else Order.none) "false"
    let body ← loopBody s "DO"
    return .statement ("while (" ++ (if negated then "!" else "") ++ condition ++ ") \x7b\n" ++ body
      ++ "\x7d\n")

/-- The value of a literal; one that is too large is infinite. -/
def literalValue (code : String) : Double :=
  let text := Text.trim code
  match Double.read text with
  | .ok n => n
  | .error .outOfRange => .infinity (text.toList.head? = some '-')
  | .error .malformed => Double.zero

/-- The end of a loop header over literals: how the variable moves. -/
def countStep (up : Bool) (step : Double) : String :=
  if step.same Double.one then (if up then "++" else "--")
  else (if up then " += " else " -= ") ++ step.format

/-- The header of a counting loop over three literals, whose direction is known. -/
def foldedHeader (v start stop step : String) : String :=
  let up := (literalValue start).le (literalValue stop)
  "for (" ++ v ++ " = " ++ start ++ "; " ++ v ++ (if up then " <= " else " >= ") ++ stop ++ "; "
    ++ v ++ countStep up (literalValue step).abs ++ ") \x7b\n"

/-- The size of a step, as an expression. -/
def stepSize (step : String) : String :=
  if Text.isNumber step then (literalValue step).abs.format else "Math.abs(" ++ step ++ ")"

/-- The header of a counting loop whose direction is found when it runs. -/
def generalHeader (v start stop inc : String) : String :=
  "for (" ++ v ++ " = " ++ start ++ "; " ++ inc ++ " >= 0 ? " ++ v ++ " <= " ++ stop ++ " : " ++ v
    ++ " >= " ++ stop ++ "; " ++ v ++ " += " ++ inc ++ ") \x7b\n"

/-- A loop that counts from one number to another. -/
def controlsFor : Emitter := fun s => do
  let v ← s.variableName "VAR"
  let start ← s.valueOr "FROM" Order.assignment "0"
  let stop ← s.valueOr "TO" Order.assignment "0"
  let step ← s.valueOr "BY" Order.assignment "1"
  let body ← loopBody s "DO"
  if Text.isNumber start && Text.isNumber stop && Text.isNumber step then
    return .statement (foldedHeader v start stop step ++ body ++ "\x7d\n")
  else
    let (beforeStart, startVar) ← cached start (v ++ "_start")
    let (beforeStop, stopVar) ← cached stop (v ++ "_end")
    let inc ← distinctVariable (v ++ "_inc")
    return .statement (beforeStart ++ beforeStop ++ "var " ++ inc ++ " = " ++ stepSize step ++ ";\n"
      ++ "if (" ++ startVar ++ " > " ++ stopVar ++ ") \x7b\n"
      ++ (← Emit.indent) ++ inc ++ " = -" ++ inc ++ ";\n" ++ "\x7d\n"
      ++ generalHeader v startVar stopVar inc ++ body ++ "\x7d\n")

/-- A loop over the items of a list. -/
def controlsForEach : Emitter := fun s => do
  let v ← s.variableName "VAR"
  let list ← s.valueOr "LIST" Order.assignment "[]"
  let body ← loopBody s "DO"
  let (before, listVar) ← do
    if Text.isWord list then pure ("", list)
    else
      let name ← distinctVariable (v ++ "_list")
      pure ("var " ++ name ++ " = " ++ list ++ ";\n", name)
  let indexVar ← distinctVariable (v ++ "_index")
  return .statement (before ++ "for (var " ++ indexVar ++ " in " ++ listVar ++ ") \x7b\n"
    ++ (← Emit.indent) ++ v ++ " = " ++ listVar ++ "[" ++ indexVar ++ "];\n" ++ body ++ "\x7d\n")

/-- A jump out of a loop or to its next round. -/
def controlsFlow : Emitter := fun s =>
  match s.head.field "FLOW" with
  | "BREAK" => return .statement "break;\n"
  | "CONTINUE" => return .statement "continue;\n"
  | _ => s.unhandled "FLOW"

/-- The emitters of this module. -/
def loops : List (String × Emitter) := [
  ("controls_repeat_ext", controlsRepeat), ("controls_repeat", controlsRepeat),
  ("controls_whileUntil", controlsWhileUntil), ("controls_for", controlsFor),
  ("controls_forEach", controlsForEach), ("controls_flow_statements", controlsFlow)]

end Blockwright.Emit
