import Blockwright.Json.Basic
/-!
# Definitions of custom kinds

A custom kind of block is defined by its sockets, what it puts out, and how it looks. Building a
definition gives its shape, which is what the editor loads.
-/

namespace Blockwright.Kind

/-- A socket as the editor sees it. -/
structure SocketShape where
  name : String
  /-- Whether it takes statements rather than a value. -/
  statement : Bool
  check : String := ""
  labels : List String := []
deriving DecidableEq, Repr

/-- A block as the editor sees it. -/
structure Shape where
  kind : String
  sockets : List SocketShape := []
  /-- What the block's value must be; `none` for a block without value. -/
  output : Option String := none
  previousStatement : Bool := false
  nextStatement : Bool := false
  colour : Int := 0
  tooltip : String := ""
  helpUrl : String := ""
deriving DecidableEq, Repr

/-- One setting of a shape. -/
inductive Setting where
  | output (check : String)
  | statement
  | colour (hue : Int)
  | tooltip (text : String)
  | helpUrl (url : String)
deriving DecidableEq, Repr

namespace Shape

/-- Makes the block a value block. -/
def setOutput (s : Shape) (check : String) : Shape :=
  { s with output := some check, previousStatement := false, nextStatement := false }

/-- Makes the block chainable. -/
def setStatement (s : Shape) : Shape :=
  { s with output := none, previousStatement := true, nextStatement := true }

/-- Applies a setting. -/
def apply (s : Shape) : Setting → Shape
  | .output check => s.setOutput check
  | .statement => s.setStatement
  | .colour hue => { s with colour := hue }
  | .tooltip text => { s with tooltip := text }
  | .helpUrl url => { s with helpUrl := url }

end Shape

/-- A value socket of a definition. Its check is replaced by `recheck` if that is given. -/
structure ValueSocket where
  id : String
  check : String := ""
  labels : List String := []
  recheck : Option String := none
deriving DecidableEq, Repr

/-- A statement socket of a definition. -/
structure StatementSocket where
  id : String
  check : String := ""
deriving DecidableEq, Repr

/-- A named kind of block. -/
structure Definition where
  name : String
  settings : List Setting := []
  values : List ValueSocket := []
  statements : List StatementSocket := []
  /-- The check of the block's value. -/
  output : Option String := none
deriving DecidableEq, Repr

namespace ValueSocket

/-- The socket as the editor sees it. -/
def shape (v : ValueSocket) : SocketShape :=
  { name := v.id, statement := false, check := v.recheck.getD v.check, labels := v.labels }

end ValueSocket

namespace StatementSocket

/-- The socket as the editor sees it. -/
def shape (s : StatementSocket) : SocketShape :=
  { name := s.id, statement := true, check := s.check }

end StatementSocket

namespace Definition

/-- Whether a socket of the kind takes statements. -/
def takesStatements (d : Definition) (socket : String) : Bool :=
  (d.statements.map (·.id)).contains socket

/-- The shape of a definition: settings first, then value sockets, then statement sockets, and
the output unless a setting has given one. -/
def build (d : Definition) : Shape :=
  let shape := d.settings.foldl Shape.apply { kind := d.name }
  let shape := { shape with
    sockets := shape.sockets ++ d.values.map ValueSocket.shape ++ d.statements.map StatementSocket.shape }
  match d.output, shape.output with
  | some check, none => shape.setOutput check
  | _, _ => shape

end Definition

/-! ## JSON -/

/-- A member that is left out when it is false. -/
def flagMember (name : String) (b : Bool) : List (String × Json) :=
  if b then [(name, .bool true)] else []

/-- A socket in JSON. -/
def SocketShape.toJson (s : SocketShape) : Json :=
  .object ([("name", .str s.name), ("kind", .str (if s.statement then "statement" else "value"))]
    ++ Json.textMember "check" s.check
    ++ (if s.labels.isEmpty then [] else [("labels", .strings s.labels)]))

/-- A shape in JSON; a block without sockets has `null` for them. -/
def Shape.toJson (s : Shape) : Json :=
  .object ([("type", .str s.kind),
      ("inputs", if s.sockets.isEmpty then .null else .array (s.sockets.map (·.toJson)))]
    ++ (match s.output with
      | some check => [("output", .object (Json.textMember "check" check))]
      | none => [])
    ++ flagMember "previousStatement" s.previousStatement
    ++ flagMember "nextStatement" s.nextStatement
    ++ [("colour", .int s.colour)]
    ++ Json.textMember "tooltip" s.tooltip
    ++ Json.textMember "helpUrl" s.helpUrl)

/-- A definition in JSON: its name and its shape. -/
def Definition.toJson (d : Definition) : Json :=
  .object [("name", .str d.name), ("shape", d.build.toJson)]

end Blockwright.Kind
