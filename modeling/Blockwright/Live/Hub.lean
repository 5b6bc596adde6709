import Blockwright.Bus.Event
import Blockwright.Digest
import Blockwright.Live.Message
/-!
# The hub

The hub keeps the rooms of projects that are being edited and hands messages to the clients in
them. A client that does not take its messages in time misses those that find its queue full.

A queue that has been closed must not be used again. The hub writes down every such use, so that
its absence can be stated.
-/

namespace Blockwright.Live

/-- How many messages wait for one client. -/
def outboxCapacity : Nat := 256

/-- How many edits of one client wait to be processed. -/
def workCapacity : Nat := 100

/-- How many messages wait to be broadcast. -/
def broadcastCapacity : Nat := 256

/-- A client of a session. -/
structure Client where
  id : String
  user : String
  username : String
  project : String
  /-- Whether its edits are processed; otherwise they are dropped. -/
  processes : Bool := true
  /-- The messages that wait to be sent to it, the oldest first. -/
  outbox : List Message := []
  outboxClosed : Bool := false
  /-- Its edits that wait to be processed, the oldest first. -/
  work : List Message := []
  workClosed : Bool := false
  /-- Its edit that is being processed. -/
  current : Option Message := none

/-- The colours of users. -/
def palette : List String :=
  ["#FF6B6B", "#4ECDC4", "#45B7D1", "#FFA07A", "#98D8C8", "#F7DC6F", "#BB8FCE", "#85C1E2",
    "#F8B739", "#52B788", "#E76F51", "#2A9D8F"]

/-- The colour of a user, always the same one. -/
def colorOf (user : String) : String :=
  palette.getD ((Digest.fnv1a (Text.bytesOf user)).toNat % palette.length) ""

namespace Client

/-- The client as others see it. -/
def info (c : Client) : UserInfo := { user := c.user, username := c.username, color := colorOf c.user }

/-- A message in the name of a client. -/
def message (c : Client) (type : MessageType) (data : Payload) : Message :=
  { type, project := c.project, user := c.user, username := c.username, data }

/-- Puts a message in the queue of a client unless it is full. -/
def receive (c : Client) (m : Message) : Client :=
  if c.outbox.length < outboxCapacity then { c with outbox := c.outbox ++ [m] } else c

end Client

/-- A use of a queue that had been closed. -/
inductive Fault where
  | sentToClosed
  | closedTwice
  | queuedToClosed
deriving DecidableEq, Repr

/-- The clients that edit one project, by their numbers. -/
structure Room where
  project : String
  members : List Nat := []
deriving DecidableEq, Repr

/-- The state of all sessions. Clients are numbered in the order they came. -/
structure Hub where
  clients : List Client := []
  rooms : List Room := []
  /-- The messages that wait to be broadcast, the oldest first. -/
  queue : List Message := []
  faults : List Fault := []

namespace Hub

/-- A message of the system. -/
def systemMessage (type : MessageType) (project : String) (data : Payload) (user : String := "") :
    Message :=
  { type, project, user, username := "system", data }

/-- Adds a client that is in no room yet, and gives its number. -/
def add (h : Hub) (c : Client) : Nat × Hub :=
  (h.clients.length, { h with clients := h.clients ++ [c] })

/-- Changes a client. -/
def modify (h : Hub) (n : Nat) (f : Client → Client) : Hub :=
  { h with clients := h.clients.modify n f }

/-- Writes down a fault. -/
def fail (h : Hub) (f : Fault) : Hub := { h with faults := h.faults ++ [f] }

/-- Puts a message in the queue of a client. -/
def send (h : Hub) (m : Message) (n : Nat) : Hub :=
  match h.clients[n]? with
  | some c => if c.outboxClosed then h.fail .sentToClosed else h.modify n (·.receive m)
  | none => h

/-- Puts a message in the queues of several clients. -/
def sendAll (h : Hub) (members : List Nat) (m : Message) : Hub := members.foldl (·.send m ·) h

/-- Closes the queue of a client. -/
def closeOutbox (h : Hub) (n : Nat) : Hub :=
  match h.clients[n]? with
  | some c =>
    if c.outboxClosed then h.fail .closedTwice else h.modify n ({ · with outboxClosed := true })
  | none => h

/-! ## Rooms -/

/-- The room of a project. -/
def room? (h : Hub) (project : String) : Option Room := h.rooms.find? fun r => r.project = project

/-- Puts a room in place of the one of its project, or adds it. -/
def putRoom (h : Hub) (r : Room) : Hub :=
  if (h.room? r.project).isSome then
    { h with rooms := h.rooms.map fun old => if old.project = r.project then r else old }
  else { h with rooms := h.rooms ++ [r] }

/-- Removes the room of a project. -/
def dropRoom (h : Hub) (project : String) : Hub :=
  { h with rooms := h.rooms.filter fun r => r.project ≠ project }

/-- The clients with the given numbers. -/
def clientsOf (h : Hub) (members : List Nat) : List Client := members.filterMap (h.clients[·]?)

/-- Whether the client of a number has an id. -/
def hasId (h : Hub) (id : String) (n : Nat) : Bool :=
  match h.clients[n]? with
  | some c => c.id = id
  | none => false

/-- The users of clients, each once, in the order of their ids. -/
def usersOf (clients : List Client) : List UserInfo :=
  let once := clients.foldl (fun seen c =>
    if seen.any fun u => u.user = c.user then seen else seen ++ [c.info]) ([] : List UserInfo)
  once.mergeSort fun a b => a.user ≤ b.user

/-- The users in the room of a project. -/
def users (h : Hub) (project : String) : List UserInfo :=
  usersOf (h.clientsOf (((h.room? project).map (·.members)).getD []))

/-- How many clients each room has, in the order of projects. -/
def stats (h : Hub) : List (String × Nat) :=
  (h.rooms.map fun r => (r.project, r.members.length)).mergeSort fun a b => a.1 ≤ b.1

/-! ## Steps -/

/-- A client enters the room of its project, which is made if it is not there. Everybody in it is
told, and the client is told who is there. A client of the same id is pushed out. -/
def register (h : Hub) (n : Nat) : Hub :=
  match h.clients[n]? with
  | none => h
  | some c =>
    let others := (((h.room? c.project).map (·.members)).getD []).filter fun k => !h.hasId c.id k
    let members := others ++ [n]
    let h := h.putRoom { project := c.project, members }
    let h := h.sendAll members (c.message .userJoin (.joined c.info))
    h.send (systemMessage .userJoin c.project (.roster (usersOf (h.clientsOf members)))) n

/-- A client leaves: the others are told, its queue is closed, and a room that is empty goes. -/
def unregister (h : Hub) (n : Nat) : Hub :=
  match h.clients[n]? with
  | none => h
  | some c =>
    match h.room? c.project with
    | none => h
    | some r =>
      let rest := r.members.filter fun k => !h.hasId c.id k
      let told :=
        if rest.length < r.members.length then
          (h.putRoom { r with members := rest }).sendAll rest
            (c.message .userLeave (.joined c.info))
        else h
      let closed := told.closeOutbox n
      if rest.isEmpty then closed.dropRoom c.project else closed

/-- Hands a message to the room of its project. -/
def broadcast (h : Hub) (m : Message) : Hub :=
  match h.room? m.project with
  | some r => h.sendAll r.members m
  | none => h

/-- Broadcasts the oldest message that waits. -/
def broadcastNext (h : Hub) : Hub :=
  match h.queue with
  | [] => h
  | m :: rest => broadcast { h with queue := rest } m

/-- Broadcasts every message that waits. -/
def pump (h : Hub) : Hub := h.queue.foldl broadcast { h with queue := [] }

/-- Whether another message may wait to be broadcast. -/
def hasSpace (h : Hub) : Bool := h.queue.length < broadcastCapacity

/-- Lets a message wait to be broadcast. -/
def enqueue (h : Hub) (m : Message) : Hub := { h with queue := h.queue ++ [m] }

/-- The message about a generation that the bus told of. -/
def generatedMessage (project : String) (e : GeneratedEvent) : Message :=
  if e.error = "" then
    systemMessage .codeGenerated project (.code e.code e.checksum false e.generation) e.user
  else systemMessage .generationError project (.rejected e.error e.checksum) e.user

/-- Takes a generation from the bus; when too many messages wait it is dropped. -/
def deliver (h : Hub) (project : String) (e : GeneratedEvent) : Hub :=
  if h.hasSpace then h.enqueue (generatedMessage project e) else h

/-- Removes the rooms that are empty. -/
def cleanup (h : Hub) : Hub := { h with rooms := h.rooms.filter fun r => !r.members.isEmpty }

end Hub
end Blockwright.Live
