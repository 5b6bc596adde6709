import Blockwright.Emit.Site
/-!
# Emitting blocks

Ties the emitters together: a block is emitted by the emitter of its kind, at the site made of
the emissions of what it holds.
-/

namespace Blockwright

/-- The emitters by kind; the first entry of a kind counts. -/
abbrev Emitters := List (String × Emitter)

/-- Fails if a failure has been recorded. -/
def Emit.check : Emit Unit := do
  match (← get).failure? with
  | some cause => Emit.fail cause
  | none => return ()

/-- Ties the failure of an action to a block. -/
def Emit.inBlock {α : Type} (b : BlockName) (action : Emit α) : Emit α :=
  tryCatch action fun f => throw (f.inBlock b)

namespace Site

/-- Emits the block of a site by its own emitter. A value that hangs from a statement link is
refused; anything else gets its comments and what is chained behind it. -/
def emit (emitters : Emitters) (s : Site) (thisOnly : Bool) : Emit Result := do
  let result ← Emit.inBlock s.block.name do
    let some emitter := emitters.lookup s.head.kind
      | Emit.fail (.unknownKind s.head.kind)
    let result ← emitter s
    Emit.check
    return result
  match result with
  | .handled => return .handled
  | .statement code => return .statement (← s.dress code thisOnly)
  | .value code order =>
    if s.head.link != .value && s.head.link != .top then
      Emit.failIn s.block.name .expectedStatement
    return .value (← s.dress code thisOnly) order

end Site

namespace Block

mutual

/-- Emits a block and, unless only the block itself is wanted, what is chained behind it. A
disabled block is passed over. -/
def emit (emitters : Emitters) : Block → Bool → Emit Result
  | ⟨head, sockets, next⟩, thisOnly =>
    if head.disabled then (if thisOnly then return .handled else emitNext emitters next)
    else
      Site.emit emitters
        { block := ⟨head, sockets, next⟩, plugs := plugs emitters sockets,
          next := nextPlug emitters next }
        thisOnly

/-- Emits what is chained behind a block. -/
def emitNext (emitters : Emitters) : Option Block → Emit Result
  | none => return .handled
  | some b => emit emitters b false

/-- The plug of what is chained behind a block. -/
def nextPlug (emitters : Emitters) : Option Block → Option Plug
  | none => none
  | some b => some { block := b, emit := emit emitters b false }

/-- The plugs of sockets. -/
def plugs (emitters : Emitters) : List Socket → List (String × Option Plug)
  | [] => []
  | ⟨name, _, none⟩ :: rest => (name, none) :: plugs emitters rest
  | ⟨name, _, some b⟩ :: rest =>
    (name, some { block := b, emit := emit emitters b false }) :: plugs emitters rest

end

/-- The site of a block. -/
def site (emitters : Emitters) (b : Block) : Site :=
  { block := b, plugs := plugs emitters b.sockets, next := nextPlug emitters b.next }

end Block
end Blockwright
