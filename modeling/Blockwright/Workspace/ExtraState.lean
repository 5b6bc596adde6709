import Blockwright.Json.Reader
import Blockwright.Number.Whole
import Blockwright.Text.Raw
import Blockwright.Workspace.Block
import Blockwright.Xml.Parser
/-!
# Mutator state in documents

A document holds the state of a block's mutator as an object or, in older documents, as a text
of XML.
-/

namespace Blockwright

/-- Why mutator state could not be read. -/
inductive ExtraStateError where
  | object
  | mutation (text : String)
deriving DecidableEq, Repr

/-- The message about mutator state. -/
def ExtraStateError.message : ExtraStateError → String
  | .object => "failed to decode extra state: "
  | .mutation text => "failed to decode mutation " ++ Text.escaped text ++ ": "

namespace Param

/-- Reads a parameter: a text is its name alone, and an object replaces what was there. -/
def reader : Json.Reader Param
  | old, .str s => some { old with name := s }
  | _, .null => some {}
  | _, .object ms => do
    let name ← Json.Reader.field ms "name" .string ""
    let id ← Json.Reader.field ms "id" .string ""
    return { name, id }
  | _, _ => none

end Param

namespace ExtraState

/-- Reads the members of an object into mutator state. -/
def ofMembers? (ms : List (String × Json)) : Option ExtraState := do
  let itemCount ← Json.Reader.field ms "itemCount" .int 0
  let elseIfCount ← Json.Reader.field ms "elseIfCount" .int 0
  let hasElse ← Json.Reader.field ms "hasElse" .bool false
  let name ← Json.Reader.field ms "name" .string ""
  let params ← Json.Reader.listField ms "params" {} Param.reader
  let hasReturnValue ← Json.Reader.field ms "hasReturnValue" .bool false
  return { itemCount, elseIfCount, hasElse, name, params, hasReturnValue }

/-- A count in XML; what is no number counts as zero. -/
def count (s : String) : Int := (Whole.ofText? s).getD 0

/-- The mutator state of an element. -/
def ofElement (e : Xml.Element) : ExtraState where
  itemCount := count (e.valueOf "items")
  elseIfCount := count (e.valueOf "elseif")
  hasElse := 0 < count (e.valueOf "else")
  name := e.valueOf "name"
  params := (e.children.filter (·.name = "arg")).map fun a =>
    { name := a.valueOf "name", id := a.valueOf "varid" }
  hasReturnValue := e.valueOf "value" = "1" || e.valueOf "value" = "true"

/-- Reads mutator state from a document. -/
def decode : Option Json → Except ExtraStateError ExtraState
  | none | some .null => .ok {}
  | some (.object ms) =>
    match ofMembers? ms with
    | some extra => .ok extra
    | none => .error .object
  | some (.str text) =>
    match Xml.parse? text with
    | some e => .ok (ofElement e)
    | none => .error (.mutation text)
  | some _ => .error .object

end ExtraState
end Blockwright
