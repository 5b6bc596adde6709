import Blockwright.Emit.Pass
import Blockwright.Text.Lines
import Blockwright.Workspace.Block
/-!
# What an emitter sees

An emitter works at a `Site`: a block together with the actions that emit what is plugged into
its sockets and what is chained behind it. It reads the block's own data and runs those actions
where it wants their code.
-/

namespace Blockwright

/-- A block and the action that emits it with everything chained behind it. -/
structure Plug where
  block : Block
  emit : Emit Result

/-- A block and the actions for what it holds. -/
structure Site where
  block : Block
  /-- The sockets by name, each with what is plugged in. -/
  plugs : List (String × Option Plug)
  next : Option Plug

/-- Produces the code of one kind of block. -/
abbrev Emitter := Site → Emit Result

/-- How failures name a block. -/
def Block.name (b : Block) : BlockName := ⟨b.head.id, b.head.kind⟩

/-! ## Comments -/

/-- The column that comments are wrapped at, without the mark in front. -/
def commentWidth : Nat := 57

/-- The lines of a block's own comment. -/
def ownComment (b : Block) : String :=
  if b.head.comment = "" then ""
  else Text.prefixLines (Text.wrap commentWidth b.head.comment ++ "\n") "// "

/-- The lines of the comments of a block and of everything below it. -/
def nestedComment (b : Block) : String :=
  let comments := (b.blocks.map (·.head.comment)).filter (· != "")
  if comments.isEmpty then ""
  else Text.prefixLines (Text.joinWith "\n" comments ++ "\n") "// "

/-- The comments of what is plugged into value sockets. -/
def socketComments : List Socket → String
  | [] => ""
  | ⟨_, .value, some b⟩ :: rest => nestedComment b ++ socketComments rest
  | _ :: rest => socketComments rest

/-- The comment lines in front of a block's code. A block plugged into a value socket has none:
its comments stand in front of the statement around it. -/
def commentLines (b : Block) : String :=
  if b.head.outputConnected then "" else ownComment b ++ socketComments b.sockets

namespace Site

/-- What the block holds itself. -/
def head (s : Site) : Head := s.block.head

/-- The plug of a socket. -/
def plug? (s : Site) (socket : String) : Option Plug := (s.plugs.lookup socket).join

/-- Whether the block has a socket of a name, filled or not. -/
def hasSocket (s : Site) (socket : String) : Bool := (s.block.socket? socket).isSome

/-- Fails because the value of a field is not one of the options. -/
def unhandled {α : Type} (s : Site) (field : String) : Emit α :=
  Emit.fail (.unhandledOption s.head.kind field (s.head.written field))

/-- The code in a value socket, in parentheses where a place of precedence `outer` needs them;
empty for an empty socket. -/
def value (s : Site) (socket : String) (outer : Order) : Emit String :=
  match s.plug? socket with
  | none => return ""
  | some plug => do
    match ← plug.emit with
    | .handled => return ""
    | .statement _ => Emit.failIn plug.block.name .expectedValue
    | .value code order => return if code = "" then "" else Order.wrap code outer order

/-- The code in a value socket, or `fallback` when that is empty. -/
def valueOr (s : Site) (socket : String) (outer : Order) (fallback : String) : Emit String := do
  let code ← s.value socket outer
  return if code = "" then fallback else code

/-- The statements in a socket, one level deeper. -/
def statements (s : Site) (socket : String) : Emit String :=
  match s.plug? socket with
  | none => return ""
  | some plug => do
    match ← plug.emit with
    | .value _ _ => Emit.failIn plug.block.name .expectedStatement
    | .handled => return ""
    | .statement code =>
      if code = "" then return "" else return Text.prefixLines code (← Emit.indent)

/-- The code of what is chained behind the block, which must be statements. -/
def nextCode (s : Site) : Emit String :=
  match s.next with
  | none => return ""
  | some plug => do
    match ← plug.emit with
    | .value _ _ => Emit.failIn plug.block.name .expectedStatement
    | .handled => return ""
    | .statement code => return code

/-- Puts the block's comments in front of its code, and what is chained behind it after it
unless only the block itself is wanted. -/
def dress (s : Site) (code : String) (thisOnly : Bool) : Emit String := do
  let next ← if thisOnly then pure "" else s.nextCode
  return commentLines s.block ++ code ++ next

/-- The name of the variable in a field. -/
def variableName (s : Site) (field : String) : Emit String :=
  Emit.name (s.head.written field) .variable

/-- Whether positions count from one for the block. -/
def oneBased (s : Site) : Emit Bool := do return s.head.owned && (← read).oneBased

end Site
end Blockwright
