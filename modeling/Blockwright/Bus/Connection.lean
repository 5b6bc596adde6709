import Blockwright.Bus.Event
/-!
# The bus

A connection to the bus carries messages from publishers to the bridge that has subscribed.
-/

namespace Blockwright

/-- The state of a connection. -/
inductive ConnectionState where
  /-- It was never made. -/
  | absent
  | live
  | closed
deriving DecidableEq, Repr

/-- Why a call on the bus failed. -/
inductive BusError where
  | subscribe (subject cause : String)
  | publish (subject cause : String)
deriving DecidableEq, Repr

/-- The message about a call that failed. -/
def BusError.message : BusError → String
  | .subscribe subject cause => "nats subscribe " ++ Text.escaped subject ++ ": " ++ cause
  | .publish subject cause => "nats publish " ++ Text.escaped subject ++ ": " ++ cause

/-- A connection with the lead of its subjects, and whether the bridge is subscribed. -/
structure Bus where
  lead : String
  state : ConnectionState := .live
  subscribed : Bool := false
deriving DecidableEq, Repr

namespace Bus

/-- What is wrong with a connection. -/
def fault? (b : Bus) : Option String :=
  match b.state with
  | .absent => some "nats: invalid connection"
  | .closed => some "nats: connection closed"
  | .live => none

/-- Whether a lead makes subjects that can be subscribed to: words between dots, none of them
empty, without white space. -/
def isValidLead (lead : String) : Bool :=
  (Text.splitOn '.' lead).all (· ≠ "")
    && lead.toList.all fun c => !(c == ' ' || c == '\t' || c == '\n' || c == '\r')

/-- Subscribes the bridge to the events of all projects. -/
def subscribe (b : Bus) : Except BusError Bus :=
  let subject := Subject.anyProject b.lead
  if b.state ≠ .absent && !isValidLead b.lead then
    .error (.subscribe subject "nats: invalid subject")
  else
    match b.fault? with
    | some fault => .error (.subscribe subject fault)
    | none => .ok { b with subscribed := true }

/-- The subject and the text of an event. -/
def publish (b : Bus) (e : GeneratedEvent) : Except BusError (String × Json) :=
  let subject := Subject.ofProject b.lead e.project
  match b.fault? with
  | some fault => .error (.publish subject fault)
  | none => .ok (subject, e.toJson)

/-- What the bridge hands on for a message on a subject. -/
def delivered (b : Bus) (subject : String) (payload : Bytes) : Option (String × GeneratedEvent) :=
  if b.subscribed && b.state = .live then Bridge.deliver? b.lead subject payload else none

end Bus
end Blockwright
