import Blockwright.Workspace.Block
/-!
# Workspaces

A workspace holds the blocks that hang from nothing, in order, the variables its user made, and
settings that all its blocks inherit.
-/

namespace Blockwright

/-- A variable of the user. -/
structure Variable where
  id : String := ""
  name : String := ""
  type : String := ""
deriving DecidableEq, Repr

/-- A program made of blocks. -/
structure Workspace where
  top : List Block := []
  vars : List Variable := []
  /-- Whether lists and texts count from one. -/
  oneBased : Bool := false
  /-- Words that generated names must avoid. -/
  reserved : List String := []

namespace Workspace

/-- Every block: each before what is plugged into it, and that before what is chained
behind it. -/
def blocks (ws : Workspace) : List Block := ws.top.flatMap Block.blocks

/-- The first variable of an id. -/
def variableById? (ws : Workspace) (id : String) : Option Variable :=
  ws.vars.find? fun v => v.id = id

/-- The first variable of a name. -/
def variableByName? (ws : Workspace) (name : String) : Option Variable :=
  ws.vars.find? fun v => v.name = name

/-- The names of the variables by id. -/
def variableNames (ws : Workspace) : List (RawText × String) :=
  ws.vars.map fun v => (v.id, v.name)

/-- What tells two used variables apart: the id, or the name behind a zero character when there
is no id. -/
def useKey (v : Variable) : String := if v.id = "" then "\x00" ++ v.name else v.id

/-- Adds a variable unless one with its key is there. -/
def addUse (seen : List Variable) (v : Variable) : List Variable :=
  if seen.any fun w => useKey w = useKey v then seen else seen ++ [v]

/-- The variable that a field refers to. An id that is not listed is a variable of that name. -/
def fieldUse? (ws : Workspace) (f : Field) : Option Variable :=
  let id := f.value.text
  if f.isVariable && id != "" then some ((ws.variableById? id).getD { id, name := id }) else none

/-- The variable that a parameter stands for: by its id, else by its name. -/
def paramUse? (ws : Workspace) (p : Param) : Option Variable :=
  match if p.id = "" then none else ws.variableById? p.id with
  | some v => some v
  | none => ws.variableByName? p.name

/-- The variables that a block refers to, by its fields and then by its parameters. -/
def blockUses (ws : Workspace) (b : Block) : List Variable :=
  b.head.fields.filterMap ws.fieldUse? ++ b.head.extra.params.filterMap ws.paramUse?

/-- The variables that blocks refer to, in the order of first use. -/
def usedVariables (ws : Workspace) : List Variable :=
  (ws.blocks.flatMap ws.blockUses).foldl addUse []

/-- The internal names that blocks need declared, in the order of first use. -/
def developerVariables (ws : Workspace) : List String :=
  (ws.blocks.flatMap fun b => b.head.developerVariables).foldl
    (fun seen name => if seen.contains name then seen else seen ++ [name]) []

end Workspace
end Blockwright
