import Blockwright.Emit.Helpers
import Blockwright.Emit.Site
import Blockwright.Number.Read
import Blockwright.Number.Text
/-!
# Numbers

Emitters of literals, arithmetic and the blocks on numbers and lists of numbers.
-/

namespace Blockwright.Emit

/-- A literal; an empty one is zero. -/
def mathNumber : Emitter := fun s =>
  let text := Text.trim (s.head.field "NUM")
  if text = "" then return .value "0" Order.atomic
  else
    match Double.read text with
    | .ok n => return .value n.format (if n.isNegative then Order.unaryNegation else Order.atomic)
    | .error _ => s.unhandled "NUM"

/-- The arithmetic operators by option; the power has no symbol. -/
def arithmeticOperators : List (String × String × Order) := [
  ("ADD", " + ", Order.addition), ("MINUS", " - ", Order.subtraction),
  ("MULTIPLY", " * ", Order.multiplication), ("DIVIDE", " / ", Order.division),
  ("POWER", "", Order.comma)]

/-- An arithmetic operation on two numbers. -/
def mathArithmetic : Emitter := fun s => do
  let some (op, order) := arithmeticOperators.lookup (s.head.field "OP") | s.unhandled "OP"
  let a ← s.valueOr "A" order "0"
  let b ← s.valueOr "B" order "0"
  if op = "" then return .value ("Math.pow(" ++ a ++ ", " ++ b ++ ")") Order.functionCall
  else return .value (a ++ op ++ b) order

/-- The functions of one number that are one call: the code before and after the number. -/
def singleCalls : List (String × String × String) := [
  ("ABS", "Math.abs(", ")"), ("ROOT", "Math.sqrt(", ")"), ("LN", "Math.log(", ")"),
  ("EXP", "Math.exp(", ")"), ("POW10", "Math.pow(10,", ")"), ("ROUND", "Math.round(", ")"),
  ("ROUNDUP", "Math.ceil(", ")"), ("ROUNDDOWN", "Math.floor(", ")"),
  ("SIN", "Math.sin(", " / 180 * Math.PI)"), ("COS", "Math.cos(", " / 180 * Math.PI)"),
  ("TAN", "Math.tan(", " / 180 * Math.PI)")]

/-- The functions of one number that are a quotient. -/
def singleDivisions : List (String × String × String) := [
  ("LOG10", "Math.log(", ") / Math.log(10)"), ("ASIN", "Math.asin(", ") / Math.PI * 180"),
  ("ACOS", "Math.acos(", ") / Math.PI * 180"), ("ATAN", "Math.atan(", ") / Math.PI * 180")]

/-- The precedence that a function of one number asks of it: the three that scale it to radians
divide it. -/
def singleOrder (op : String) : Order :=
  if op = "SIN" || op = "COS" || op = "TAN" then Order.division else Order.none

/-- A function of one number. -/
def mathSingle : Emitter := fun s => do
  let op := s.head.field "OP"
  if op = "NEG" then
    let code ← s.valueOr "NUM" Order.unaryNegation "0"
    -- two minus signs in a row would be another operator
    let gap := if code.toList.head? = some '-' then " " else ""
    return .value ("-" ++ gap ++ code) Order.unaryNegation
  else
    match singleCalls.lookup op, singleDivisions.lookup op with
    | some (before, after), _ =>
      let code ← s.valueOr "NUM" (singleOrder op) "0"
      return .value (before ++ code ++ after) Order.functionCall
    | none, some (before, after) =>
      let code ← s.valueOr "NUM" (singleOrder op) "0"
      return .value (before ++ code ++ after) Order.division
    | none, none => s.unhandled "OP"

/-- The constants by option. -/
def constants : List (String × String × Order) := [
  ("PI", "Math.PI", Order.member), ("E", "Math.E", Order.member),
  ("GOLDEN_RATIO", "(1 + Math.sqrt(5)) / 2", Order.division),
  ("SQRT2", "Math.SQRT2", Order.member), ("SQRT1_2", "Math.SQRT1_2", Order.member),
  ("INFINITY", "Infinity", Order.atomic)]

/-- A constant. -/
def mathConstant : Emitter := fun s =>
  match constants.lookup (s.head.field "CONSTANT") with
  | some (code, order) => return .value code order
  | none => s.unhandled "CONSTANT"

/-- The tests of a number that are written behind it. -/
def properties : List (String × String) := [
  ("EVEN", " % 2 == 0"), ("ODD", " % 2 == 1"), ("WHOLE", " % 1 == 0"), ("POSITIVE", " > 0"),
  ("NEGATIVE", " < 0")]

/-- A test of a number. -/
def mathNumberProperty : Emitter := fun s => do
  let code ← s.valueOr "NUMBER_TO_CHECK" Order.modulus "0"
  match s.head.field "PROPERTY" with
  | "PRIME" =>
    let fn ← provide "mathIsPrime" Helpers.mathIsPrime
    return .value (fn ++ "(" ++ code ++ ")") Order.functionCall
  | "DIVISIBLE_BY" =>
    let divisor ← s.valueOr "DIVISOR" Order.modulus "0"
    return .value (code ++ " % " ++ divisor ++ " == 0") Order.equality
  | property =>
    match properties.lookup property with
    | some test => return .value (code ++ test) Order.equality
    | none => s.unhandled "PROPERTY"

/-- Adds to a variable. -/
def mathChange : Emitter := fun s => do
  let delta ← s.valueOr "DELTA" Order.addition "0"
  let v ← s.variableName "VAR"
  return .statement (v ++ " = (typeof " ++ v ++ " == 'number' ? " ++ v ++ " : 0) + " ++ delta
    ++ ";\n")

/-- The helpers on lists of numbers by option. -/
def listReducers : List (String × String × List String) := [
  ("SUM", "mathSum", Helpers.mathSum), ("MIN", "mathMin", Helpers.mathMin),
  ("MAX", "mathMax", Helpers.mathMax), ("AVERAGE", "mathMean", Helpers.mathMean),
  ("MEDIAN", "mathMedian", Helpers.mathMedian), ("MODE", "mathModes", Helpers.mathModes),
  ("STD_DEV", "mathStandardDeviation", Helpers.mathStandardDeviation),
  ("RANDOM", "mathRandomList", Helpers.mathRandomList)]

/-- A number computed from a list. -/
def mathOnList : Emitter := fun s => do
  let some (name, body) := listReducers.lookup (s.head.field "OP") | s.unhandled "OP"
  let fn ← provide name body
  let list ← s.valueOr "LIST" Order.none "[]"
  return .value (fn ++ "(" ++ list ++ ")") Order.functionCall

/-- A remainder. -/
def mathModulo : Emitter := fun s => do
  let dividend ← s.valueOr "DIVIDEND" Order.modulus "0"
  let divisor ← s.valueOr "DIVISOR" Order.modulus "0"
  return .value (dividend ++ " % " ++ divisor) Order.modulus

/-- A number kept between two bounds. -/
def mathConstrain : Emitter := fun s => do
  let v ← s.valueOr "VALUE" Order.comma "0"
  let low ← s.valueOr "LOW" Order.comma "0"
  let high ← s.valueOr "HIGH" Order.comma "Infinity"
  return .value ("Math.min(Math.max(" ++ v ++ ", " ++ low ++ "), " ++ high ++ ")")
    Order.functionCall

/-- A random whole number. -/
def mathRandomInt : Emitter := fun s => do
  let low ← s.valueOr "FROM" Order.comma "0"
  let high ← s.valueOr "TO" Order.comma "0"
  let fn ← provide "mathRandomInt" Helpers.mathRandomInt
  return .value (fn ++ "(" ++ low ++ ", " ++ high ++ ")") Order.functionCall

/-- A random number below one. -/
def mathRandomFloat : Emitter := fun _ => return .value "Math.random()" Order.functionCall

/-- The angle of a point. -/
def mathAtan2 : Emitter := fun s => do
  let x ← s.valueOr "X" Order.comma "0"
  let y ← s.valueOr "Y" Order.comma "0"
  return .value ("Math.atan2(" ++ y ++ ", " ++ x ++ ") / Math.PI * 180") Order.division

/-- The emitters of this module. -/
def math : List (String × Emitter) := [
  ("math_number", mathNumber), ("math_arithmetic", mathArithmetic), ("math_single", mathSingle),
  ("math_round", mathSingle), ("math_trig", mathSingle), ("math_constant", mathConstant),
  ("math_number_property", mathNumberProperty), ("math_change", mathChange),
  ("math_on_list", mathOnList), ("math_modulo", mathModulo), ("math_constrain", mathConstrain),
  ("math_random_int", mathRandomInt), ("math_random_float", mathRandomFloat),
  ("math_atan2", mathAtan2)]

end Blockwright.Emit
