import Blockwright.Names.Registry
import Blockwright.Precedence
import Blockwright.Text.Lines
/-!
# The state of a pass

One pass turns a workspace into code. It owns the names it hands out and the definitions that go
in front of the program. An `Emit` action reads the settings of the pass, may change its state,
and may fail; the state that a failed action leaves is kept.
-/

namespace Blockwright

/-- Why a block cannot be turned into code. -/
inductive Cause where
  | unknownKind (kind : String)
  | unhandledOption (kind field : String) (option : RawText)
  | expectedValue
  | expectedStatement
  | helperMismatch (name : String)
  | namesExhausted (name : Exhausted)
  | outOfRange (literal : String)
deriving DecidableEq, Repr

/-- The message of a cause. -/
def Cause.message : Cause → String
  | .unknownKind kind => "no emitter registered for block kind " ++ Text.escaped kind
  | .unhandledOption kind field option =>
    "block kind " ++ Text.escaped kind ++ ": unhandled " ++ field ++ " option " ++ option.escaped
  | .expectedValue => "expected a value from block"
  | .expectedStatement => "expected a statement from block"
  | .helperMismatch name => "helper provided twice with different bodies: " ++ name
  | .namesExhausted e => e.message
  | .outOfRange literal =>
    "strconv.ParseFloat: parsing " ++ Text.escaped literal ++ ": value out of range"

/-- The id and the kind of a block, as failures name it. -/
structure BlockName where
  id : String
  kind : String
deriving DecidableEq, Repr

/-- A cause and the block where it arose, once that is known. -/
structure Failure where
  cause : Cause
  block : Option BlockName := none
deriving DecidableEq, Repr

namespace Failure

/-- Ties a failure to a block, unless a block inside has claimed it. -/
def inBlock (f : Failure) (b : BlockName) : Failure := { f with block := f.block.or (some b) }

/-- The message of a failure. -/
def message (f : Failure) : String :=
  match f.block with
  | none => f.cause.message
  | some b =>
    (if b.id = "" then b.kind else b.kind ++ " (" ++ b.id ++ ")") ++ ": " ++ f.cause.message

end Failure

/-- What an emitter gives back. A value has the precedence of its outermost operator; a handled
block has put its code elsewhere. -/
inductive Result where
  | handled
  | statement (code : String)
  | value (code : String) (order : Order)
deriving DecidableEq, Repr

/-- The code of a result. -/
def Result.code : Result → String
  | .handled => ""
  | .statement code => code
  | .value code _ => code

/-- What stays the same during a pass. -/
structure PassSettings where
  /-- One level of indentation. -/
  indent : String := "  "
  /-- Code put at the top of every loop body; empty for none. -/
  loopTrap : String := ""
  /-- Whether two bodies for one helper are a failure. -/
  strict : Bool := false
  /-- Whether lists and texts count from one. -/
  oneBased : Bool := false
deriving DecidableEq, Repr

/-- A helper function: the name it was given, and the body it was first provided with. -/
structure Helper where
  name : String
  body : RawText
deriving DecidableEq, Repr

/-- What changes during a pass. -/
structure Pass where
  names : Names
  /-- Code in front of the program, by key, in the order of first definition. -/
  definitions : List (RawText × String) := []
  /-- The helpers provided, by the name asked for. -/
  helpers : List (RawText × Helper) := []
  /-- The first failure outside an emitter's own result. -/
  failure : Option Cause := none

/-- An action of a pass. -/
abbrev Emit (α : Type) := ReaderT PassSettings (ExceptT Failure (StateM Pass)) α

namespace Emit

/-- Runs an action. -/
def run {α : Type} (action : Emit α) (settings : PassSettings) (pass : Pass) :
    Except Failure α × Pass :=
  (action settings).run pass

/-- Fails with a cause. -/
def fail {α : Type} (cause : Cause) : Emit α := throw { cause }

/-- Fails with a cause that arose in a block. -/
def failIn {α : Type} (b : BlockName) (cause : Cause) : Emit α := throw { cause, block := some b }

end Emit

namespace Pass

/-- Sets code under a key; an existing key keeps its place. -/
def setDefinition (definitions : List (RawText × String)) (key : RawText) (code : String) :
    List (RawText × String) :=
  if definitions.any (·.1 = key) then
    definitions.map fun d => if d.1 = key then (key, code) else d
  else definitions ++ [(key, code)]

/-- The failure that has been recorded, if any. -/
def failure? (p : Pass) : Option Cause := p.failure.or (p.names.failure.map .namesExhausted)

/-- Puts the definitions in front of a program and clears the pass. -/
def finish (p : Pass) (code : String) : String × Pass :=
  (Text.joinWith "\n\n" (p.definitions.map (·.2)) ++ "\n\n\n" ++ code,
    { names := p.names.reset, failure := p.failure })

end Pass

namespace Emit

/-- One level of indentation. -/
def indent : Emit String := do return (← read).indent

/-- The name of a key. -/
def name (key : RawText) (category : Category) : Emit String :=
  modifyGet fun p =>
    let (name, names) := p.names.get key category
    (name, { p with names })

/-- The name of a procedure of the user. -/
def procedureName (key : RawText) : Emit String := name key .procedure

/-- A fresh name for a temporary variable. -/
def distinctVariable (seed : RawText) : Emit String :=
  modifyGet fun p =>
    let (name, names) := p.names.distinct seed .variable
    (name, { p with names })

/-- Stores code to go in front of the program. -/
def define (key : RawText) (code : String) : Emit Unit :=
  modify fun p => { p with definitions := Pass.setDefinition p.definitions key code }

/-- What stands for a helper's name in its body. -/
def functionMark : String := "\x7bfunctionName\x7d"

/-- The code of a helper: its name filled in, and its indentation in the unit of the pass. -/
def helperCode (indent name body : String) : String :=
  let code := Text.replaceAll functionMark name body
  if indent = "  " then code else Text.reindent indent code

/-- Provides a helper once a pass and gives back the name it has. In a strict pass a second body
for one name is recorded as a failure. -/
def provideText (desired body : RawText) : Emit String := do
  let settings ← read
  modifyGet fun p =>
    match p.helpers.lookup desired with
    | some helper =>
      if settings.strict && helper.body != body then
        (helper.name, { p with failure := p.failure.or (some (.helperMismatch desired.text)) })
      else (helper.name, p)
    | none =>
      let (name, names) := p.names.distinct desired .procedure
      (name, { p with
        names
        helpers := p.helpers ++ [(desired, { name, body })]
        definitions :=
          Pass.setDefinition p.definitions desired (helperCode settings.indent name body.text) })

/-- Provides a helper whose body is given line by line. -/
def provide (desired : String) (body : List String) : Emit String :=
  provideText desired (Text.joinWith "\n" body)

end Emit
end Blockwright
