import Blockwright.Json.Slice
import Blockwright.Live.Hub
import Blockwright.Live.Processor
/-!
# Sessions

What the reader of a client's frames and the worker that processes its edits do. Frames carry no
identity that counts: the client's own is stamped on what they say.
-/

namespace Blockwright.Live

/-- A frame: its type, and the bytes of its data. -/
structure Frame where
  type : MessageType
  data : Option Bytes
deriving DecidableEq, Repr

/-- Reads a frame. -/
def Frame.read? (bytes : Bytes) : Option Frame := do
  let readType : Json.Reader String := .record fun old ms => Json.Reader.field ms "type" .string old
  let type ← readType "" (← Json.parse? bytes)
  return { type := .ofText type, data := Json.slice? bytes "data" }

/-- The message of a frame, in the name of the client. -/
def Client.stamp (c : Client) (f : Frame) : Message :=
  c.message f.type ((f.data.map Payload.raw).getD .nothing)

/-- The complaint about a frame that cannot be read. -/
def Client.unreadable (c : Client) : Message :=
  c.message .error (.complaint "Invalid message format" parseComplaint)

namespace Hub

/-- The client of a number is sent a complaint. -/
def complain (h : Hub) (n : Nat) (c : Client) (text : String) : Hub :=
  h.send (c.message .error (.complaint text "")) n

/-- The reader passes a message on, queues an edit, or complains. -/
def dispatch (h : Hub) (n : Nat) (m : Message) : Hub :=
  match h.clients[n]? with
  | none => h
  | some c =>
    if !m.type.isAllowed then h.complain n c ("Unsupported message type: " ++ m.type.text)
    else if !m.type.isProcessed then h.enqueue m
    else if c.workClosed then h.fail .queuedToClosed
    else if c.work.length < workCapacity then h.modify n fun c => { c with work := c.work ++ [m] }
    else h.complain n c "Server is busy, please try again"

/-- The reader takes a frame from the client's connection. -/
def receive (h : Hub) (n : Nat) (bytes : Bytes) : Hub :=
  match h.clients[n]? with
  | none => h
  | some c =>
    match Frame.read? bytes with
    | some f => h.dispatch n (c.stamp f)
    | none => h.send c.unreadable n

/-- The reader has read its last frame and closes the queue of edits. -/
def closeWork (h : Hub) (n : Nat) : Hub :=
  match h.clients[n]? with
  | none => h
  | some c =>
    if c.workClosed then h.fail .closedTwice else h.modify n ({ · with workClosed := true })

/-- The worker takes the oldest edit. -/
def takeWork (h : Hub) (n : Nat) : Hub :=
  h.modify n fun c =>
    match c.current, c.work with
    | none, m :: rest => { c with work := rest, current := some m }
    | _, _ => c

end Hub

/-- The sessions together with what edits are processed with. -/
structure Sessions (σ : Type) where
  hub : Hub := {}
  cache : Cache := .off
  store : σ

namespace Sessions

variable {σ : Type}

/-- Changes the hub. -/
def onHub (s : Sessions σ) (f : Hub → Hub) : Sessions σ := { s with hub := f s.hub }

/-- The worker ends the edit it has taken: code is broadcast, and a failure is told the client. -/
def finishWork (p : Processor σ) (s : Sessions σ) (n : Nat) : Sessions σ :=
  match s.hub.clients[n]? with
  | none => s
  | some c =>
    match c.current with
    | none => s
    | some m =>
      let hub := s.hub.modify n ({ · with current := none })
      if c.processes then
        let (result, cache, store) := p.process s.cache s.store m
        { hub := match result with
            | .ok m => hub.enqueue m
            | .error e => hub.send (m.replyTo e) n
          cache, store }
      else { s with hub }

/-- The worker ends one edit. -/
def workOnce (p : Processor σ) (s : Sessions σ) (n : Nat) : Sessions σ :=
  finishWork p (s.onHub (·.takeWork n)) n

/-- The worker ends every edit that waits, and the one it has taken. -/
def workAll (p : Processor σ) (s : Sessions σ) (n : Nat) : Sessions σ :=
  let waiting := (s.hub.clients[n]?.map fun c => c.work.length).getD 0
  (List.range (waiting + 1)).foldl (fun s _ => workOnce p s n) s

/-- The worker ends every edit, and then all that waits is broadcast. -/
def settle (p : Processor σ) (s : Sessions σ) (n : Nat) : Sessions σ :=
  (workAll p s n).onHub Hub.pump

/-- A client comes: it is added and enters its room. -/
def join (s : Sessions σ) (c : Client) : Nat × Sessions σ :=
  let (n, hub) := s.hub.add c
  (n, { s with hub := hub.register n })

/-- A client goes: its edits are ended before it leaves its room. -/
def leave (p : Processor σ) (s : Sessions σ) (n : Nat) : Sessions σ :=
  ((workAll p (s.onHub (·.closeWork n)) n).onHub (·.unregister n)).onHub Hub.pump

/-- The longest frame, in bytes. -/
def frameLimit : Nat := 512 * 1024

/-- A frame arrives on the connection of a client, and all that it causes happens. A frame that is
too long ends the connection. -/
def hear (p : Processor σ) (s : Sessions σ) (n : Nat) (frame : Bytes) : Sessions σ :=
  if frame.length ≤ frameLimit then settle p (s.onHub (·.receive n frame)) n else leave p s n

/-- Takes the messages that wait for a client. -/
def drain (s : Sessions σ) (n : Nat) : List Message × Sessions σ :=
  (((s.hub.clients[n]?).map (·.outbox)).getD [], s.onHub (·.modify n ({ · with outbox := [] })))

end Sessions
end Blockwright.Live
