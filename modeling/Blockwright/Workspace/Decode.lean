import Blockwright.Json.Parser
import Blockwright.Number.Text
import Blockwright.Text.Utf8
import Blockwright.Workspace.Basic
import Blockwright.Workspace.ExtraState
/-!
# Reading workspaces

The editor saves a workspace as a JSON document. The document does not say which sockets take
statements, so a classifier is asked first and the name of the socket decides otherwise.
-/

namespace Blockwright

/-- Says whether a socket of a kind of block takes statements; `none` for a kind it does not
know. -/
abbrev Classifier := String → String → Option Bool

/-- Whether a socket takes statements, by its name: `STACK`, `DO` with or without a number, and
`ELSE` on the two kinds of if. -/
def isStatementName (kind name : String) : Bool :=
  if name = "ELSE" then kind = "controls_if" || kind = "controls_ifelse"
  else name = "STACK" ||
    match name.toList with
    | 'D' :: 'O' :: digits => digits.all Text.isDigit
    | _ => false

/-- The kind of a socket. -/
def socketKind (classify : Option Classifier) (kind name : String) : SocketKind :=
  let statement := ((classify.bind fun c => c kind name)).getD (isStatementName kind name)
  if statement then .statement else .value

/-- Why the members of `fields` or `inputs` could not be read. -/
inductive MembersError where
  | unreadable
  | notObject (shown : String)
deriving DecidableEq, Repr

/-- Why a block could not be read. -/
inductive BlockDecodeError where
  | unreadable
  | untyped
  | extraState (id kind : String) (error : ExtraStateError)
  | fields (id kind : String) (error : MembersError)
  | field (id kind name : String)
  | inputs (id kind : String) (error : MembersError)
  | input (id kind name : String)
deriving DecidableEq, Repr

/-- Why a document is not a workspace. -/
inductive DecodeError where
  | unreadable
  | top (index : Nat) (error : BlockDecodeError)
deriving DecidableEq, Repr

/-- What stands in a message for the complaint of a reader of JSON, XML or numbers. -/
def parseComplaint : String := "<parse error>"

namespace MembersError

/-- The message about members. -/
def message : MembersError → String
  | .unreadable => parseComplaint
  | .notObject shown => "expected object, got " ++ shown

/-- Whether a reader complained. -/
def isParse : MembersError → Bool
  | .unreadable => true
  | .notObject _ => false

end MembersError

namespace BlockDecodeError

/-- How a message names a block. -/
def blockName (id kind : String) : String := "block " ++ id ++ " (" ++ kind ++ ")"

/-- The message about a block. -/
def message : BlockDecodeError → String
  | .unreadable => "failed to decode block: " ++ parseComplaint
  | .untyped => "block has no type"
  | .extraState id kind e => blockName id kind ++ ": " ++ e.message ++ parseComplaint
  | .fields id kind e => blockName id kind ++ " fields: " ++ e.message
  | .field id kind name => blockName id kind ++ ": field " ++ name ++ ": " ++ parseComplaint
  | .inputs id kind e => blockName id kind ++ " inputs: " ++ e.message
  | .input id kind name => blockName id kind ++ " input " ++ name ++ ": " ++ parseComplaint

/-- Whether a reader complained. -/
def isParse : BlockDecodeError → Bool
  | .untyped => false
  | .fields _ _ e | .inputs _ _ e => e.isParse
  | _ => true

end BlockDecodeError

namespace DecodeError

/-- The message about a document. -/
def message : DecodeError → String
  | .unreadable => "failed to decode workspace: " ++ parseComplaint
  | .top i e => "top block " ++ Text.ofNat i ++ ": " ++ e.message

/-- Whether a reader complained. -/
def isParse : DecodeError → Bool
  | .unreadable => true
  | .top _ e => e.isParse

end DecodeError

namespace Workspace

open Json (Reader)

/-! ## Members -/

/-- The members of an object, which may be absent; anything else is shown in the error. -/
def objectMembers : Option Json → Except MembersError (List (String × Json))
  | none | some .null => .ok []
  | some (.object ms) => .ok ms
  | some (.arr _ _) => .error (.notObject "[")
  | some (.str s) => .error (.notObject s)
  | some (.bool b) => .error (.notObject (Text.ofBool b))
  | some (.num text) =>
    match Double.read text with
    | .ok x => .error (.notObject (x.toText Double.messageStyle))
    | .error _ => .error .unreadable

/-- Reads a field: an object refers to a variable; a number and a list keep their text. -/
def readField? (name : String) : Json → Option Field
  | .object ms => (Reader.field ms "id" .string "").map fun id => { name, value := id, isVariable := true }
  | .str s => some { name, value := s }
  | .bool b => some { name, value := if b then "TRUE" else "FALSE" }
  | .null => some { name, value := "" }
  | .num text => some { name, value := text }
  | .arr source _ => some { name, value := source }

/-- What a connection holds: a block and a shadow block, `null` counting as absent. -/
structure Connection where
  block : Option Json := none
  shadow : Option Json := none

namespace Connection

/-- Reads a connection. -/
def reader : Reader Connection := .record fun old ms => do
  let block ← Reader.field ms "block" .raw old.block
  let shadow ← Reader.field ms "shadow" .raw old.shadow
  return { block, shadow }

/-- A value other than `null`. -/
def present? : Option Json → Option Json
  | none | some .null => none
  | j => j

/-- The block of a connection, or else its shadow. -/
def target? (c : Connection) : Option Json := (present? c.block).or (present? c.shadow)

end Connection

/-- The members of a block that are read before its fields and sockets. -/
structure BlockMembers where
  kind : String := ""
  id : String := ""
  x : Double := Double.zero
  y : Double := Double.zero
  fields : Option Json := none
  inputs : Option Json := none
  next : Option Connection := none
  extraState : Option Json := none
  enabled : Option Bool := none
  disabledReasons : List String := []
  comment : Option String := none

/-- Reads the text of a comment. -/
def commentReader : Reader String := .record fun old ms => Reader.field ms "text" .string old

/-- Reads the icons of a block, of which the comment counts. -/
def iconsReader : Reader (Option String) :=
  .record fun old ms => Reader.field ms "comment" (.optional "" commentReader) old

/-- Reads the members of a block. -/
def BlockMembers.read? : Json → Option BlockMembers
  | .null => some {}
  | .object ms => do
    let kind ← Reader.field ms "type" .string ""
    let id ← Reader.field ms "id" .string ""
    let x ← Reader.field ms "x" .double Double.zero
    let y ← Reader.field ms "y" .double Double.zero
    let fields ← Reader.field ms "fields" .raw none
    let inputs ← Reader.field ms "inputs" .raw none
    let next ← Reader.field ms "next" (.optional {} Connection.reader) none
    let extraState ← Reader.field ms "extraState" .raw none
    let enabled ← Reader.field ms "enabled" (.optional false .bool) none
    let disabledReasons ← Reader.listField ms "disabledReasons" "" .string
    let comment ← Reader.field ms "icons" iconsReader none
    return { kind, id, x, y, fields, inputs, next, extraState, enabled, disabledReasons, comment }
  | _ => none

/-- Reads the fields of a block in order. -/
def readFields (id kind : String) (members : List (String × Json)) :
    Except BlockDecodeError (List Field) :=
  members.foldlM (fun fields (name, j) =>
    match readField? name j with
    | some f => .ok (Head.setField fields f)
    | none => .error (.field id kind name)) []

/-! ## Blocks -/

mutual

/-- Reads a block and everything it holds; `fuel` bounds the nesting. -/
def readBlock (classify : Option Classifier) : Nat → Link → Json → Except BlockDecodeError Block
  | 0, _, _ => .error .unreadable
  | fuel + 1, link, j => do
    let some m := BlockMembers.read? j | .error .unreadable
    if m.kind = "" then .error .untyped
    let extra ← (ExtraState.decode m.extraState).mapError (.extraState m.id m.kind)
    let fieldMembers ← (objectMembers m.fields).mapError (.fields m.id m.kind)
    let fields ← readFields m.id m.kind fieldMembers
    let inputMembers ← (objectMembers m.inputs).mapError (.inputs m.id m.kind)
    let sockets ← readSockets classify fuel m.id m.kind [] inputMembers
    let next ←
      match m.next.bind (·.target?) with
      | some target => (readBlock classify fuel .next target).map some
      | none => .ok none
    let head : Head :=
      { kind := m.kind, id := m.id, fields, extra, comment := m.comment.getD "",
        disabled := m.enabled = some false || !m.disabledReasons.isEmpty,
        x := m.x, y := m.y, link }
    return { head, sockets, next }

/-- Reads the sockets of a block in order, with what is plugged into them. -/
def readSockets (classify : Option Classifier) :
    Nat → String → String → List Socket → List (String × Json) →
      Except BlockDecodeError (List Socket)
  | 0, _, _, _, _ => .error .unreadable
  | _ + 1, _, _, sockets, [] => .ok sockets
  | fuel + 1, id, kind, sockets, (name, j) :: rest => do
    let some c := Connection.reader {} j | .error (.input id kind name)
    let socketKind := socketKind classify kind name
    let link := if socketKind = .statement then Link.statement else Link.value
    let plugged ←
      match c.target? with
      | some target => (readBlock classify fuel link target).map some
      | none => .ok none
    readSockets classify fuel id kind
      (Block.setSocket sockets { name, kind := socketKind, plugged }) rest

end

/-! ## Documents -/

/-- The settings of a workspace. -/
structure Options where
  oneBased : Bool := false
  reserved : Json.Slots String := {}

/-- Reads the settings of a workspace. -/
def Options.reader : Reader Options := .record fun old ms => do
  let oneBased ← Reader.field ms "oneBasedIndex" .bool old.oneBased
  let reserved ← Reader.field ms "reservedWords" (.slots "" .string) old.reserved
  return { oneBased, reserved }

/-- Reads a variable. -/
def variableReader : Reader Variable := .record fun old ms => do
  let id ← Reader.field ms "id" .string old.id
  let name ← Reader.field ms "name" .string old.name
  let type ← Reader.field ms "type" .string old.type
  return { id, name, type }

/-- Reads the list of top blocks, one value each. -/
def topReader : Reader (List Json) := .record fun old ms => do
  let _ ← Reader.field ms "languageVersion" .int 0
  Reader.field ms "blocks" .values old

/-- Reads blocks that hang from nothing. -/
def readTop (classify : Option Classifier) (fuel : Nat) :
    Nat → List Json → Except DecodeError (List Block)
  | _, [] => .ok []
  | i, j :: rest => do
    let b ← (readBlock classify fuel .top j).mapError (.top i)
    let bs ← readTop classify fuel (i + 1) rest
    return b :: bs

/-- The three members of a document. -/
def readDocument? : Json → Option (List Json × List Variable × Options)
  | .null => some ([], [], {})
  | .object ms => do
    let top ← Reader.field ms "blocks" topReader []
    let vars ← Reader.listField ms "variables" {} variableReader
    let options ← Reader.field ms "options" Options.reader {}
    return (top, vars, options)
  | _ => none

/-- Reads the workspace that a document holds. -/
def decode (classify : Option Classifier) (document : Bytes) : Except DecodeError Workspace :=
  match (Json.parse? document).bind readDocument? with
  | none => .error .unreadable
  | some (top, vars, options) => do
    let top ← readTop classify (document.length + 1) 0 top
    return { top, vars, oneBased := options.oneBased, reserved := options.reserved.items }

end Workspace
end Blockwright
