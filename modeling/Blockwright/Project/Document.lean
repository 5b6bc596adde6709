import Blockwright.Json.Parser
import Blockwright.Json.Printer
import Blockwright.Workspace.Decode
/-!
# Stored documents

A project keeps the document of its workspace as it was sent. It may have none.
-/

namespace Blockwright

/-- The document of a workspace as stored: bytes, or nothing. -/
abbrev Document := Option Bytes

/-- A value of a database column. -/
inductive Column where
  | null
  | bytes (value : Bytes)
  | text (value : String)
  | whole
  | real
  | truth
deriving DecidableEq, Repr

/-- A column that holds no document. -/
structure ColumnError where
  type : String
deriving DecidableEq, Repr

/-- The message about a column that holds no document. -/
def ColumnError.message (e : ColumnError) : String :=
  "cannot scan type " ++ e.type ++ " into WorkspaceData"

namespace Document

/-- Bytes as a document; no bytes are no document. -/
def ofBytes (bytes : Bytes) : Document := if bytes.isEmpty then none else some bytes

/-- The document of a column. -/
def ofColumn : Column → Except ColumnError Document
  | .null => .ok none
  | .bytes b => .ok (ofBytes b)
  | .text t => .ok (some (Text.bytesOf t))
  | .whole => .error ⟨"int64"⟩
  | .real => .error ⟨"float64"⟩
  | .truth => .error ⟨"bool"⟩

/-- The text of a document. -/
def text (d : Document) : String := Text.ofBytes (d.getD [])

/-- The document as part of a JSON text: compact, `null` when there is none. A document that is
not JSON has no such text. -/
def toJsonText? : Document → Option String
  | none => some "null"
  | some bytes =>
    (Json.parse? bytes).map fun _ => Json.compact (Text.ofBytes bytes)

/-- The document as a JSON value. -/
def toJson (d : Document) : Json :=
  (d.bind fun bytes => Json.parse? bytes).getD .null

/-- The workspace of a document; one that is empty gives an empty workspace. -/
def decode (classify : Option Classifier) : Document → Except DecodeError Workspace
  | none => .ok {}
  | some bytes => if bytes.isEmpty then .ok {} else Workspace.decode classify bytes

end Document
end Blockwright
