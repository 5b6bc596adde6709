import Blockwright.Emit.Lists
/-!
# Texts

Emitters of the blocks on texts.
-/

namespace Blockwright.Emit

/-- A value as a text: a literal stays, anything else is converted. -/
def asText (code : String) : String :=
  if Text.isQuoted code then code else "String(" ++ code ++ ")"

/-- A literal. -/
def text : Emitter := fun s => return .value (Text.quote (s.head.field "TEXT")) Order.atomic

/-- A literal of several lines, in parentheses if there is more than one. -/
def textMultiline : Emitter := fun s =>
  let code := Text.quoteLines (s.head.field "TEXT")
  return .value (if code.toList.contains '\n' then "(" ++ code ++ ")" else code) Order.atomic

/-- Texts one after the other. -/
def textJoin : Emitter := fun s => do
  match itemCount s.block with
  | 0 => return .value "''" Order.atomic
  | 1 =>
    let a ← s.valueOr "ADD0" Order.none "''"
    return .value (asText a) Order.functionCall
  | 2 =>
    let a ← s.valueOr "ADD0" Order.none "''"
    let b ← s.valueOr "ADD1" Order.none "''"
    return .value (asText a ++ " + " ++ asText b) Order.addition
  | n =>
    let items ← numbered s "ADD" n Order.comma "''"
    return .value ("[" ++ Text.joinWith "," items ++ "].join('')") Order.functionCall

/-- Appends to a variable. -/
def textAppend : Emitter := fun s => do
  let v ← s.variableName "VAR"
  let code ← s.valueOr "TEXT" Order.none "''"
  return .statement (v ++ " += " ++ asText code ++ ";\n")

/-- The length of a text. -/
def textLength : Emitter := fun s => do
  let code ← s.valueOr "VALUE" Order.functionCall "''"
  return .value (code ++ ".length") Order.member

/-- Whether a text is empty. -/
def textIsEmpty : Emitter := fun s => do
  let code ← s.valueOr "VALUE" Order.member "''"
  return .value ("!" ++ code ++ ".length") Order.logicalNot

/-- The place of a text in a text. -/
def textIndexOf : Emitter := indexOf "''"

/-- A letter of a text. -/
def textCharAt : Emitter := fun s => do
  let place := s.head.fieldOr "WHERE" "FROM_START"
  let code ← s.valueOr "VALUE" (if place = "RANDOM" then Order.none else Order.member) "''"
  match place with
  | "FIRST" => return .value (code ++ ".charAt(0)") Order.functionCall
  | "LAST" => return .value (code ++ ".slice(-1)") Order.functionCall
  | "FROM_START" =>
    let i ← s.index "AT" 0 false Order.none
    return .value (code ++ ".charAt(" ++ i ++ ")") Order.functionCall
  | "FROM_END" =>
    let i ← s.index "AT" 1 true Order.none
    return .value (code ++ ".slice(" ++ i ++ ").charAt(0)") Order.functionCall
  | "RANDOM" =>
    let fn ← provide "textRandomLetter" Helpers.textRandomLetter
    return .value (fn ++ "(" ++ code ++ ")") Order.functionCall
  | _ => s.unhandled "WHERE"

/-- A part of a text. -/
def textGetSubstring : Emitter := fun s => do
  let code ← s.valueOr "STRING" Order.functionCall "''"
  let place1 := s.head.field "WHERE1"
  let place2 := s.head.field "WHERE2"
  let part ←
    if place1 = "FIRST" && place2 = "LAST" then pure code
    else if Text.isQuotedWord code
        || (place1 != "FROM_END" && place1 != "LAST" && place2 != "FROM_END" && place2 != "LAST") then
      directSlice s code
    else helperSlice s code
  return .value part Order.functionCall

/-- A text in another case. -/
def textChangeCase : Emitter := fun s => do
  match s.head.field "CASE" with
  | "UPPERCASE" =>
    let code ← s.valueOr "TEXT" Order.member "''"
    return .value (code ++ ".toUpperCase()") Order.functionCall
  | "LOWERCASE" =>
    let code ← s.valueOr "TEXT" Order.member "''"
    return .value (code ++ ".toLowerCase()") Order.functionCall
  | "TITLECASE" =>
    let code ← s.valueOr "TEXT" Order.none "''"
    let fn ← provide "textToTitleCase" Helpers.textToTitleCase
    return .value (fn ++ "(" ++ code ++ ")") Order.functionCall
  | _ => s.unhandled "CASE"

/-- The calls that trim a text, by option. -/
def trimCalls : List (String × String) := [
  ("LEFT", ".replace(/^[\\s\\xa0]+/, '')"), ("RIGHT", ".replace(/[\\s\\xa0]+$/, '')"),
  ("BOTH", ".trim()")]

/-- A text without the white space at its ends. -/
def textTrim : Emitter := fun s => do
  let some call := trimCalls.lookup (s.head.field "MODE") | s.unhandled "MODE"
  let code ← s.valueOr "TEXT" Order.member "''"
  return .value (code ++ call) Order.functionCall

/-- Shows a text. -/
def textPrint : Emitter := fun s => do
  let code ← s.valueOr "TEXT" Order.none "''"
  return .statement ("window.alert(" ++ code ++ ");\n")

/-- Asks for a text or a number. The question is a literal field or the value in a socket. -/
def textPrompt : Emitter := fun s => do
  let question ←
    match s.head.field? "TEXT" with
    | some literal => pure (Text.quote literal)
    | none => s.valueOr "TEXT" Order.none "''"
  let code := "window.prompt(" ++ question ++ ")"
  match s.head.field "TYPE" with
  | "NUMBER" => return .value ("Number(" ++ code ++ ")") Order.functionCall
  | "TEXT" | "" => return .value code Order.functionCall
  | _ => s.unhandled "TYPE"

/-- How often one text stands in another. -/
def textCount : Emitter := fun s => do
  let code ← s.valueOr "TEXT" Order.member "''"
  let part ← s.valueOr "SUB" Order.none "''"
  let fn ← provide "textCount" Helpers.textCount
  return .value (fn ++ "(" ++ code ++ ", " ++ part ++ ")") Order.subtraction

/-- A text with one part replaced by another. -/
def textReplace : Emitter := fun s => do
  let code ← s.valueOr "TEXT" Order.member "''"
  let part ← s.valueOr "FROM" Order.none "''"
  let other ← s.valueOr "TO" Order.none "''"
  let fn ← provide "textReplace" Helpers.textReplace
  return .value (fn ++ "(" ++ code ++ ", " ++ part ++ ", " ++ other ++ ")") Order.member

/-- A text in the other direction. -/
def textReverse : Emitter := fun s => do
  let code ← s.valueOr "TEXT" Order.member "''"
  return .value (code ++ ".split('').reverse().join('')") Order.member

/-- The emitters of this module. -/
def texts : List (String × Emitter) := [
  ("text", text), ("text_multiline", textMultiline), ("text_join", textJoin),
  ("text_append", textAppend), ("text_length", textLength), ("text_isEmpty", textIsEmpty),
  ("text_indexOf", textIndexOf), ("text_charAt", textCharAt),
  ("text_getSubstring", textGetSubstring), ("text_changeCase", textChangeCase),
  ("text_trim", textTrim), ("text_print", textPrint), ("text_prompt", textPrompt),
  ("text_prompt_ext", textPrompt), ("text_count", textCount), ("text_replace", textReplace),
  ("text_reverse", textReverse)]

end Blockwright.Emit
