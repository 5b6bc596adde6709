import Blockwright.Emit.Logic
import Blockwright.Emit.Procedures
import Blockwright.Emit.Math
import Blockwright.Emit.Run
import Blockwright.Emit.Texts
import Blockwright.Emit.Variables
import Blockwright.Workspace.Basic
/-!
# Generating programs

A pass starts by declaring every variable of the workspace, emits the top blocks in order, and
ends with the definitions in front of the program and the blank space tidied.
-/

namespace Blockwright

/-- The emitters of all kinds. -/
def Emit.standard : Emitters :=
  Emit.logic ++ Emit.loops ++ Emit.math ++ Emit.lists ++ Emit.texts ++ Emit.procedures
    ++ Emit.vars

/-- How programs are generated. -/
structure Generator where
  emitters : Emitters := Emit.standard
  /-- Words that names must avoid, besides the default ones. -/
  reserved : List String := []
  indent : String := "  "
  loopTrap : String := ""
  strict : Bool := false

/-- Why a workspace gives no program. -/
inductive GenerateError where
  | declaring (cause : Cause)
  | failed (failure : Failure)
deriving DecidableEq, Repr

namespace GenerateError

/-- The message of a failed pass. -/
def message : GenerateError → String
  | .declaring cause => "failed to declare variables: " ++ cause.message
  | .failed f => f.message

/-- The cause of a failed pass. -/
def cause : GenerateError → Cause
  | .declaring cause => cause
  | .failed f => f.cause

/-- The block where a pass failed. -/
def block : GenerateError → Option BlockName
  | .declaring _ => none
  | .failed f => f.block

end GenerateError

namespace Generator

/-- The settings of a pass over a workspace. -/
def settings (g : Generator) (ws : Workspace) : PassSettings :=
  { indent := g.indent, loopTrap := g.loopTrap, strict := g.strict, oneBased := ws.oneBased }

/-- The registry that a pass over a workspace starts with. -/
def startNames (g : Generator) (ws : Workspace) : Names :=
  { ((Names.new Names.defaultReserved).reserve g.reserved).reserve ws.reserved with
    idNames := ws.variableNames }

/-- What a used variable's name is asked for by: its id, or its name when it has none. -/
def variableKey (v : Variable) : String := if v.id = "" then v.name else v.id

/-- The keys of everything that is declared up front, in order. -/
def declaredKeys (ws : Workspace) : List (String × Category) :=
  ws.developerVariables.map (·, Category.developerVariable)
    ++ ws.usedVariables.map fun v => (variableKey v, Category.variable)

/-- Names keys one after the other. -/
def nameAll : Names → List (String × Category) → List String × Names
  | n, [] => ([], n)
  | n, (key, category) :: rest =>
    let (name, n) := n.get key category
    let (names, n) := nameAll n rest
    (name :: names, n)

/-- Starts a pass: every variable of the workspace is named and declared. -/
def start (g : Generator) (ws : Workspace) : Except GenerateError Pass :=
  let (declared, names) := nameAll (g.startNames ws) (declaredKeys ws)
  match names.failure with
  | some e => .error (.declaring (.namesExhausted e))
  | none =>
    .ok { names, definitions :=
      if declared.isEmpty then []
      else [("variables", "var " ++ Text.joinWith ", " declared ++ ";")] }

/-- A value that stands alone as a statement. -/
def nakedValue (code : String) : String := code ++ ";\n"

/-- The program text of a top block's result; nothing when it has no code. -/
def topCode (r : Result) : List String :=
  match r with
  | .value code _ => if code = "" then [] else [nakedValue code]
  | r => if r.code = "" then [] else [r.code]

/-- Emits top blocks in order. -/
def emitTop (emitters : Emitters) : List Block → Emit (List String)
  | [] => return []
  | b :: rest => do
    let result ← b.emit emitters false
    let lines ← emitTop emitters rest
    return topCode result ++ lines

/-- The program of a workspace. -/
def generate (g : Generator) (ws : Workspace) : Except GenerateError String := do
  let pass ← g.start ws
  match (emitTop g.emitters ws.top).run (g.settings ws) pass with
  | (.ok lines, pass) => return Text.tidy (pass.finish (Text.joinWith "\n" lines)).1
  | (.error f, _) => .error (.failed f)

end Generator
end Blockwright
