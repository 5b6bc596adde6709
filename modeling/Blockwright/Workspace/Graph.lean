import Blockwright.Workspace.Basic
/-!
# Workspaces under construction

A workspace is put together from blocks that can be plugged, unplugged and plugged elsewhere. A
block is known by its number. It remembers the block it was last plugged into and how, also when
another block has taken its place there since, so two sockets may hold the same block.
`toWorkspace` gives the finished program.
-/

namespace Blockwright

/-- A socket that holds a block by its number. -/
structure NodeSocket where
  name : String
  kind : SocketKind
  plugged : Option Nat
deriving DecidableEq, Repr

/-- A block under construction. -/
structure Node where
  kind : String
  id : String := ""
  fields : List Field := []
  sockets : List NodeSocket := []
  next : Option Nat := none
  extra : ExtraState := {}
  comment : String := ""
  disabled : Bool := false
  x : Double := Double.zero
  y : Double := Double.zero
  developerVariables : List String := []
  /-- The block it was last plugged into or chained behind. -/
  parent : Option Nat := none
  link : Link := .top
  /-- Whether it was ever put at the top of the workspace. -/
  placed : Bool := false
deriving Repr

/-- A workspace under construction. -/
structure Graph where
  nodes : List Node := []
  top : List Nat := []
  vars : List Variable := []
  oneBased : Bool := false
  reserved : List String := []
deriving Repr

namespace Graph

/-- Adds an empty block of a kind and gives its number. -/
def add (g : Graph) (kind : String) : Nat × Graph :=
  (g.nodes.length, { g with nodes := g.nodes ++ [{ kind }] })

/-- Changes a block. -/
def update (g : Graph) (i : Nat) (f : Node → Node) : Graph := { g with nodes := g.nodes.modify i f }

/-- Records how a block is held. -/
def attach (g : Graph) (child : Option Nat) (parent : Nat) (link : Link) : Graph :=
  match child with
  | some c => g.update c fun n => { n with parent := some parent, link }
  | none => g

/-- Sets a socket; an existing one of that name keeps its place. -/
def setSocket (sockets : List NodeSocket) (s : NodeSocket) : List NodeSocket :=
  if sockets.any (·.name = s.name) then sockets.map fun t => if t.name = s.name then s else t
  else sockets ++ [s]

/-- Plugs a block into a socket, or declares the socket empty. -/
def plug (g : Graph) (i : Nat) (name : String) (kind : SocketKind) (child : Option Nat) : Graph :=
  (g.attach child i (if kind = .statement then .statement else .value)).update i fun n =>
    { n with sockets := setSocket n.sockets { name, kind, plugged := child } }

/-- Chains a block behind another, or ends the chain. -/
def chain (g : Graph) (i : Nat) (child : Option Nat) : Graph :=
  (g.attach child i .next).update i fun n => { n with next := child }

/-- Puts a block at the top of the workspace. -/
def place (g : Graph) (i : Nat) : Graph :=
  { g.update i fun n => { n with parent := none, link := .top, placed := true } with
    top := g.top ++ [i] }

/-- Whether following the parents upward ends in a block that was put at the top. -/
def owned (g : Graph) : Nat → Nat → Bool
  | 0, _ => false
  | fuel + 1, i =>
    match g.nodes[i]? with
    | none => false
    | some n =>
      match n.parent with
      | some p => g.owned fuel p
      | none => n.placed

/-- Whether a block belongs to the workspace. -/
def isOwned (g : Graph) (i : Nat) : Bool := g.owned (g.nodes.length + 1) i

/-- What a block holds itself. -/
def headOf (g : Graph) (i : Nat) (n : Node) : Head :=
  { kind := n.kind, id := n.id, fields := n.fields, extra := n.extra, comment := n.comment,
    disabled := n.disabled, x := n.x, y := n.y, developerVariables := n.developerVariables, link := n.link,
    owned := g.isOwned i }

/-- The finished block of a number; `fuel` bounds the nesting. -/
def block? (g : Graph) : Nat → Nat → Option Block
  | 0, _ => none
  | fuel + 1, i => do
    let n ← g.nodes[i]?
    return {
      head := g.headOf i n
      sockets := n.sockets.map fun s =>
        { name := s.name, kind := s.kind, plugged := s.plugged.bind (g.block? fuel) }
      next := n.next.bind (g.block? fuel) }

/-- The finished block of a number. -/
def toBlock? (g : Graph) (i : Nat) : Option Block := g.block? (g.nodes.length + 1) i

/-- The finished program. -/
def toWorkspace (g : Graph) : Workspace :=
  { top := g.top.filterMap g.toBlock?, vars := g.vars, oneBased := g.oneBased,
    reserved := g.reserved }

end Graph
end Blockwright
