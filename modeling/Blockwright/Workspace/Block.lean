import Blockwright.Number.Double
import Blockwright.Text.Raw
/-!
# Blocks

A block has literal fields, named sockets that other blocks plug into, and perhaps a block
chained behind it. Its descendants are part of it, so a block is a tree. It also says how it is
linked to what holds it, and whether it belongs to a workspace.
-/

namespace Blockwright

/-- A named literal on a block. When `isVariable` is set, the value is a variable's id. -/
structure Field where
  name : String
  value : RawText
  isVariable : Bool := false
deriving DecidableEq, Repr

/-- What a socket takes. -/
inductive SocketKind where
  | value
  | statement
deriving DecidableEq, Repr

/-- A parameter of a procedure. -/
structure Param where
  name : String := ""
  id : String := ""
deriving DecidableEq, Repr

/-- What a block's mutator holds: how many sockets the block grew, and the signature of the
procedure it refers to. -/
structure ExtraState where
  itemCount : Int := 0
  elseIfCount : Int := 0
  hasElse : Bool := false
  name : String := ""
  params : List Param := []
  hasReturnValue : Bool := false
deriving DecidableEq, Repr

/-- How a block is linked to what holds it. -/
inductive Link where
  | top
  | value
  | statement
  | next
deriving DecidableEq, Repr

/-- What a block holds itself. -/
structure Head where
  kind : String
  id : String := ""
  fields : List Field := []
  extra : ExtraState := {}
  comment : String := ""
  disabled : Bool := false
  x : Double := Double.zero
  y : Double := Double.zero
  /-- Internal names that the block needs declared. -/
  developerVariables : List String := []
  /-- How the block was last linked. -/
  link : Link := .top
  /-- Whether following the holders upward ends in a block of the workspace. -/
  owned : Bool := true
deriving Repr

mutual

/-- A named socket and the block plugged into it. -/
structure Socket where
  name : String
  kind : SocketKind
  plugged : Option Block

/-- A block with everything plugged into it and chained behind it. -/
structure Block where
  head : Head
  sockets : List Socket
  next : Option Block

end

namespace Head

/-- The value of a field as it was written, if the block has it. -/
def written? (h : Head) (name : String) : Option RawText :=
  (h.fields.find? fun f => f.name = name).map (·.value)

/-- The value of a field as it was written, empty when absent. -/
def written (h : Head) (name : String) : RawText := (h.written? name).getD ""

/-- The value of a field as answers show it, if the block has it. -/
def field? (h : Head) (name : String) : Option String := (h.written? name).map (·.text)

/-- The value of a field as answers show it, empty when absent. -/
def field (h : Head) (name : String) : String := (h.field? name).getD ""

/-- The value of a field, or `fallback` when it is empty or absent. -/
def fieldOr (h : Head) (name fallback : String) : String :=
  if h.field name = "" then fallback else h.field name

/-- Whether the block is plugged into a value socket. -/
def outputConnected (h : Head) : Bool := h.link = .value

/-- Sets a field; an existing one of that name keeps its place. -/
def setField (fields : List Field) (f : Field) : List Field :=
  if fields.any (·.name = f.name) then fields.map fun g => if g.name = f.name then f else g
  else fields ++ [f]

end Head

namespace Block

/-- The socket of a name. -/
def socket? (b : Block) (name : String) : Option Socket := b.sockets.find? fun s => s.name = name

/-- The block plugged into the socket of a name. -/
def plugged? (b : Block) (name : String) : Option Block := (b.socket? name).bind (·.plugged)

/-- The blocks plugged into sockets, in the order of the sockets. -/
def children (b : Block) : List Block := b.sockets.filterMap (·.plugged)

/-- Sets a socket; an existing one of that name keeps its place. -/
def setSocket (sockets : List Socket) (s : Socket) : List Socket :=
  if sockets.any (·.name = s.name) then sockets.map fun t => if t.name = s.name then s else t
  else sockets ++ [s]

/-- A block linked in another way. -/
def linked (b : Block) (link : Link) : Block := { b with head := { b.head with link } }

mutual

/-- The block, then everything plugged into it, then everything chained behind it. -/
def blocks : Block → List Block
  | ⟨head, sockets, next⟩ => ⟨head, sockets, next⟩ :: (socketBlocks sockets ++ nextBlocks next)

/-- The blocks plugged into sockets, each with all it holds. -/
def socketBlocks : List Socket → List Block
  | [] => []
  | ⟨_, _, some b⟩ :: rest => blocks b ++ socketBlocks rest
  | ⟨_, _, none⟩ :: rest => socketBlocks rest

/-- The chained block with all it holds. -/
def nextBlocks : Option Block → List Block
  | none => []
  | some b => blocks b

end

end Block
end Blockwright
