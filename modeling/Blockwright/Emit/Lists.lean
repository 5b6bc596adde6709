import Blockwright.Emit.Helpers
import Blockwright.Emit.Index
/-!
# Lists

Emitters of the blocks on lists, and what they share with the blocks on texts: numbered sockets,
searching, and slices.
-/

namespace Blockwright.Emit

/-! ## Numbered sockets -/

/-- One past the number of a socket that is named by a text and a number; zero for any other. -/
def socketNumber (start name : String) : Int :=
  match Text.dropStart? start.toList name.toList with
  | some rest => ((Whole.ofText? (String.ofList rest)).map fun i => Whole.wrap (i + 1)).getD 0
  | none => 0

/-- One past the highest numbered socket of a name. -/
def socketCount (b : Block) (start : String) : Int :=
  (b.sockets.map fun s => socketNumber start s.name).foldl max 0

/-- The number of items: what the mutator says, or more if there are more sockets. -/
def itemCount (b : Block) : Nat := (max b.head.extra.itemCount (socketCount b "ADD")).toNat

/-- The values in the first `n` numbered sockets. -/
def numbered (s : Site) (start : String) (n : Nat) (order : Order) (fallback : String) :
    Emit (List String) :=
  (List.range n).mapM fun i => s.valueOr (start ++ Text.ofNat i) order fallback

/-! ## Making lists -/

/-- The empty list. -/
def listsCreateEmpty : Emitter := fun _ => return .value "[]" Order.atomic

/-- A list of items. -/
def listsCreateWith : Emitter := fun s => do
  let items ← numbered s "ADD" (itemCount s.block) Order.comma "null"
  return .value ("[" ++ Text.joinWith ", " items ++ "]") Order.atomic

/-- A list of one item many times. -/
def listsRepeat : Emitter := fun s => do
  let fn ← provide "listsRepeat" Helpers.listsRepeat
  let item ← s.valueOr "ITEM" Order.comma "null"
  let count ← s.valueOr "NUM" Order.comma "0"
  return .value (fn ++ "(" ++ item ++ ", " ++ count ++ ")") Order.functionCall

/-! ## Asking lists -/

/-- The length of a list. -/
def listsLength : Emitter := fun s => do
  let list ← s.valueOr "VALUE" Order.member "[]"
  return .value (list ++ ".length") Order.member

/-- Whether a list is empty. -/
def listsIsEmpty : Emitter := fun s => do
  let list ← s.valueOr "VALUE" Order.member "[]"
  return .value ("!" ++ list ++ ".length") Order.logicalNot

/-- The place of an item in a list, or of a text in a text. -/
def indexOf (fallback : String) : Emitter := fun s => do
  let some method := [("FIRST", "indexOf"), ("LAST", "lastIndexOf")].lookup (s.head.field "END")
    | s.unhandled "END"
  let item ← s.valueOr "FIND" Order.none "''"
  let sequence ← s.valueOr "VALUE" Order.member fallback
  let code := sequence ++ "." ++ method ++ "(" ++ item ++ ")"
  if ← s.oneBased then return .value (code ++ " + 1") Order.addition
  else return .value code Order.functionCall

/-- The place of an item in a list. -/
def listsIndexOf : Emitter := indexOf "[]"

/-! ## One item -/

/-- The result of taking an item out of a list: its value, or a statement that drops it. -/
def taken (s : Site) (mode get : String) (getOrder : Order) (remove : String)
    (removeOrder : Order) : Emit Result :=
  match mode with
  | "GET" => return .value get getOrder
  | "GET_REMOVE" => return .value remove removeOrder
  | "REMOVE" => return .statement (remove ++ ";\n")
  | _ => s.unhandled "MODE"

/-- Gets an item of a list, removes it, or both. -/
def listsGetIndex : Emitter := fun s => do
  let mode := s.head.fieldOr "MODE" "GET"
  let place := s.head.fieldOr "WHERE" "FROM_START"
  let list ← s.valueOr "VALUE" (if place = "RANDOM" then Order.comma else Order.member) "[]"
  match place with
  | "FIRST" =>
    taken s mode (list ++ "[0]") Order.member (list ++ ".shift()") Order.member
  | "LAST" =>
    taken s mode (list ++ ".slice(-1)[0]") Order.member (list ++ ".pop()") Order.member
  | "FROM_START" =>
    let i ← s.index "AT" 0 false Order.none
    match mode with
    | "GET" => return .value (list ++ "[" ++ i ++ "]") Order.member
    | "GET_REMOVE" => return .value (list ++ ".splice(" ++ i ++ ", 1)[0]") Order.functionCall
    | "REMOVE" => return .statement (list ++ ".splice(" ++ i ++ ", 1);\n")
    | _ => s.unhandled "MODE"
  | "FROM_END" =>
    let i ← s.index "AT" 1 true Order.none
    match mode with
    | "GET" => return .value (list ++ ".slice(" ++ i ++ ")[0]") Order.functionCall
    | "GET_REMOVE" => return .value (list ++ ".splice(" ++ i ++ ", 1)[0]") Order.functionCall
    | "REMOVE" => return .statement (list ++ ".splice(" ++ i ++ ", 1);\n")
    | _ => s.unhandled "MODE"
  | "RANDOM" =>
    let fn ← provide "listsGetRandomItem" Helpers.listsGetRandomItem
    let code := fn ++ "(" ++ list ++ ", " ++ Text.ofBool (mode != "GET") ++ ")"
    taken s mode code Order.functionCall code Order.functionCall
  | _ => s.unhandled "WHERE"

/-- A list that can be repeated: a word stays, anything else goes into a temporary variable. -/
def cachedList (list : String) : Emit (String × String) := do
  if Text.isWord list then return ("", list)
  else
    let name ← distinctVariable "tmpList"
    return ("var " ++ name ++ " = " ++ list ++ ";\n", name)

/-- Writes an item at a place computed from the list: over what is there, or in between. -/
def placed (before list mode i item : String) : Result :=
  if mode = "SET" then .statement (before ++ list ++ "[" ++ i ++ "] = " ++ item ++ ";\n")
  else .statement (before ++ list ++ ".splice(" ++ i ++ ", 0, " ++ item ++ ");\n")

/-- Sets an item of a list or inserts one. -/
def listsSetIndex : Emitter := fun s => do
  let list ← s.valueOr "LIST" Order.member "[]"
  let mode := s.head.fieldOr "MODE" "GET"
  let place := s.head.fieldOr "WHERE" "FROM_START"
  let item ← s.valueOr "TO" Order.assignment "null"
  let known := mode = "SET" || mode = "INSERT"
  match place with
  | "FIRST" =>
    match mode with
    | "SET" => return .statement (list ++ "[0] = " ++ item ++ ";\n")
    | "INSERT" => return .statement (list ++ ".unshift(" ++ item ++ ");\n")
    | _ => s.unhandled "MODE"
  | "LAST" =>
    match mode with
    | "SET" =>
      let (before, list) ← cachedList list
      return placed before list mode (list ++ ".length - 1") item
    | "INSERT" => return .statement (list ++ ".push(" ++ item ++ ");\n")
    | _ => s.unhandled "MODE"
  | "FROM_START" =>
    let i ← s.index "AT" 0 false Order.none
    if known then return placed "" list mode i item else s.unhandled "MODE"
  | "FROM_END" =>
    let i ← s.index "AT" 1 false Order.subtraction
    if known then
      let (before, list) ← cachedList list
      return placed before list mode (list ++ ".length - " ++ i) item
    else s.unhandled "MODE"
  | "RANDOM" =>
    if known then
      let (before, list) ← cachedList list
      let x ← distinctVariable "tmpX"
      let pick := "var " ++ x ++ " = Math.floor(Math.random() * " ++ list ++ ".length);\n"
      return placed (before ++ pick) list mode x item
    else s.unhandled "MODE"
  | _ => s.unhandled "WHERE"

/-! ## Slices -/

/-- The start of a slice taken directly from a sequence. -/
def sliceStart (s : Site) (sequence : String) : Emit String :=
  match s.head.field "WHERE1" with
  | "FROM_START" => s.index "AT1" 0 false Order.none
  | "FROM_END" => do
    let i ← s.index "AT1" 1 false Order.subtraction
    return sequence ++ ".length - " ++ i
  | "FIRST" => return "0"
  | _ => s.unhandled "WHERE1"

/-- The end of a slice taken directly from a sequence. -/
def sliceEnd (s : Site) (sequence : String) : Emit String :=
  match s.head.field "WHERE2" with
  | "FROM_START" => s.index "AT2" 1 false Order.none
  | "FROM_END" => do
    let i ← s.index "AT2" 0 false Order.subtraction
    return sequence ++ ".length - " ++ i
  | "LAST" => return sequence ++ ".length"
  | _ => s.unhandled "WHERE2"

/-- A slice taken directly from a sequence. -/
def directSlice (s : Site) (sequence : String) : Emit String := do
  let start ← sliceStart s sequence
  let stop ← sliceEnd s sequence
  return sequence ++ ".slice(" ++ start ++ ", " ++ stop ++ ")"

/-- A slice taken by a helper, so that the sequence is written once. -/
def helperSlice (s : Site) (sequence : String) : Emit String := do
  let place1 := s.head.field "WHERE1"
  let place2 := s.head.field "WHERE2"
  if (Helpers.whereNames.lookup place1).isNone || place1 = "LAST" then s.unhandled "WHERE1"
  else if (Helpers.whereNames.lookup place2).isNone || place2 = "FIRST" then s.unhandled "WHERE2"
  else
    let i ← s.index "AT1" 0 false Order.none
    let j ← s.index "AT2" 0 false Order.none
    let fn ← provide (Helpers.subsequenceName place1 place2) (Helpers.subsequence place1 place2)
    return fn ++ "(" ++ sequence ++ (if Helpers.takesIndex place1 then ", " ++ i else "")
      ++ (if Helpers.takesIndex place2 then ", " ++ j else "") ++ ")"

/-- A part of a list. -/
def listsGetSublist : Emitter := fun s => do
  let list ← s.valueOr "LIST" Order.member "[]"
  let place1 := s.head.field "WHERE1"
  let place2 := s.head.field "WHERE2"
  let code ←
    if place1 = "FIRST" && place2 = "LAST" then pure (list ++ ".slice(0)")
    else if Text.isWord list || (place1 != "FROM_END" && place2 = "FROM_START") then
      directSlice s list
    else helperSlice s list
  return .value code Order.functionCall

/-! ## Other lists from lists -/

/-- A sorted copy of a list. -/
def listsSort : Emitter := fun s => do
  let list ← s.valueOr "LIST" Order.functionCall "[]"
  let direction := if s.head.field "DIRECTION" = "1" then "1" else "-1"
  let type := s.head.field "TYPE"
  if type = "NUMERIC" || type = "TEXT" || type = "IGNORE_CASE" then
    let fn ← provide "listsGetSortCompare" Helpers.listsGetSortCompare
    return .value (list ++ ".slice().sort(" ++ fn ++ "(\"" ++ type ++ "\", " ++ direction ++ "))")
      Order.functionCall
  else s.unhandled "TYPE"

/-- A text split into a list, or a list joined to a text. -/
def listsSplit : Emitter := fun s => do
  let input ← s.value "INPUT" Order.member
  let delimiter ← s.valueOr "DELIM" Order.none "''"
  match s.head.field "MODE" with
  | "SPLIT" =>
    return .value ((if input = "" then "''" else input) ++ ".split(" ++ delimiter ++ ")")
      Order.functionCall
  | "JOIN" =>
    return .value ((if input = "" then "[]" else input) ++ ".join(" ++ delimiter ++ ")")
      Order.functionCall
  | _ => s.unhandled "MODE"

/-- A copy of a list in the other direction. -/
def listsReverse : Emitter := fun s => do
  let list ← s.valueOr "LIST" Order.functionCall "[]"
  return .value (list ++ ".slice().reverse()") Order.functionCall

/-- The emitters of this module. -/
def lists : List (String × Emitter) := [
  ("lists_create_empty", listsCreateEmpty), ("lists_create_with", listsCreateWith),
  ("lists_repeat", listsRepeat), ("lists_length", listsLength), ("lists_isEmpty", listsIsEmpty),
  ("lists_indexOf", listsIndexOf), ("lists_getIndex", listsGetIndex),
  ("lists_setIndex", listsSetIndex), ("lists_getSublist", listsGetSublist),
  ("lists_sort", listsSort), ("lists_split", listsSplit), ("lists_reverse", listsReverse)]

end Blockwright.Emit
