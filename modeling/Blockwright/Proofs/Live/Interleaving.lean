import Mathlib.Logic.Function.Basic
import Blockwright.Live.Session
import Blockwright.Proofs.Live.Tasks
/-!
# Readers, workers and the hub at once

A client has a reader and a worker, which run at the same time as those of the other clients, the
hub and the bus. `Step` says what one party can do next and `Reachable` where any order of such
steps leads. A step uses one queue at most: the events of the hub are split into their tasks.

A party that has to wait for room in the queue of the hub is let through at once, and what edits
are processed with may change at any time, so more runs are looked at than can occur.
-/

namespace Blockwright.Live

/-- Where the reader of a client is. -/
inductive Stage where
  /-- It has not started: the client waits to be taken in by the hub. -/
  | arriving
  /-- It reads frames. -/
  | reading
  /-- It has closed the queue of edits and waits for the worker. -/
  | ending
  /-- The worker is done, and the client waits to be taken out by the hub. -/
  | parting
  /-- The hub has taken the client out. -/
  | gone
deriving DecidableEq, Repr

namespace Stage

/-- Whether the client is in its room. -/
def isPresent : Stage → Bool
  | .reading | .ending | .parting => true
  | .arriving | .gone => false

/-- Whether the reader has read its last frame. -/
def isPast : Stage → Bool
  | .ending | .parting | .gone => true
  | .arriving | .reading => false

/-- Whether the worker has stopped. -/
def isRested : Stage → Bool
  | .parting | .gone => true
  | .arriving | .reading | .ending => false

end Stage

/-- The sessions, where each client's reader is, and what the hub still has to do of the event
that it is at. -/
structure World (σ : Type) where
  sessions : Sessions σ
  stage : Nat → Stage := fun _ => .arriving
  tasks : List Task := []

namespace World

variable {σ : Type}

/-- The hub. -/
def hub (w : World σ) : Hub := w.sessions.hub

/-- Changes the hub. -/
def onHub (w : World σ) (f : Hub → Hub) : World σ := { w with sessions := w.sessions.onHub f }

/-- The reader of a client comes to a stage. -/
def setStage (w : World σ) (n : Nat) (s : Stage) : World σ := { w with stage := Function.update w.stage n s }

/-- The hub starts on an event. -/
def begin (w : World σ) (event : Hub → Hub × List Task) : World σ :=
  { w.onHub fun h => (event h).1 with tasks := (event w.hub).2 }

end World

/-- What can happen next. -/
inductive Step {σ : Type} (p : Processor σ) (w : World σ) : World σ → Prop
  /-- A client comes, under an id that no other client has. -/
  | come (id user username project : String) (processes : Bool) (hid : ∀ c ∈ w.hub.clients, c.id ≠ id) :
      Step p w (w.onHub fun h => (h.add { id, user, username, project, processes }).2)
  /-- The hub takes a client in, and its reader starts. -/
  | takeIn (n : Nat) (hn : n < w.hub.clients.length) (hs : w.stage n = .arriving) (hidle : w.tasks = []) :
      Step p w ((w.begin (·.startRegister n)).setStage n .reading)
  /-- The hub takes a client out, whose reader then ends. -/
  | takeOut (n : Nat) (hs : w.stage n = .parting) (hidle : w.tasks = []) :
      Step p w ((w.begin (·.startUnregister n)).setStage n .gone)
  /-- The hub starts to hand on the oldest message that waits. -/
  | handOn (hidle : w.tasks = []) : Step p w (w.begin (·.startBroadcast))
  /-- The hub removes empty rooms. -/
  | tidyRooms (hidle : w.tasks = []) : Step p w (w.onHub (·.cleanup))
  /-- The hub does the next task of the event that it is at. -/
  | doTask (t : Task) (ts : List Task) (ht : w.tasks = t :: ts) :
      Step p w { w.onHub t.perform with tasks := ts }
  /-- A reader takes a frame. -/
  | readFrame (n : Nat) (bytes : Bytes) (hs : w.stage n = .reading) : Step p w (w.onHub (·.receive n bytes))
  /-- A reader has read its last frame. -/
  | stopReading (n : Nat) (hs : w.stage n = .reading) : Step p w ((w.onHub (·.closeWork n)).setStage n .ending)
  /-- A reader hears that its worker is done: no edit waits, and none is being processed. -/
  | stopWaiting (n : Nat) (hs : w.stage n = .ending)
      (hdone : ∀ c, w.hub.clients[n]? = some c → c.work = [] ∧ c.current = none) :
      Step p w (w.setStage n .parting)
  /-- A worker takes an edit. -/
  | takeEdit (n : Nat) : Step p w (w.onHub (·.takeWork n))
  /-- A worker ends the edit it has taken. -/
  | endEdit (n : Nat) : Step p w { w with sessions := w.sessions.finishWork p n }
  /-- Messages that waited for a client are sent to it. -/
  | write (n count : Nat) : Step p w (w.onHub (·.modify n fun c => { c with outbox := c.outbox.drop count }))
  /-- The bus tells of a generation. -/
  | deliver (project : String) (e : GeneratedEvent) : Step p w (w.onHub (·.deliver project e))
  /-- Requests change what edits are processed with. -/
  | elsewhere (cache : Cache) (store : σ) : Step p w { w with sessions := { w.sessions with cache, store } }

/-- Where any order of steps leads from an empty hub. -/
inductive Reachable {σ : Type} (p : Processor σ) : World σ → Prop
  | start (cache : Cache) (store : σ) : Reachable p { sessions := { cache, store } }
  | step {w w' : World σ} : Reachable p w → Step p w w' → Reachable p w'

/-! ## Steady steps

Most steps leave the rooms and what has been closed as it is, and give no work to a worker that has
stopped. -/

/-- The rooms are the same, with the same clients, and no closed queue was used. -/
structure Hub.SameSeats (h h' : Hub) : Prop where
  rooms : h'.rooms = h.rooms
  faults : h'.faults = h.faults
  length : h'.clients.length = h.clients.length
  clients : ∀ (n : Nat) (c' : Client), h'.clients[n]? = some c' →
    ∃ c, h.clients[n]? = some c ∧ c'.id = c.id ∧ c'.project = c.project

/-- What most steps leave of a client. -/
structure Client.Steady (c c' : Client) : Prop where
  id : c'.id = c.id
  project : c'.project = c.project
  outboxClosed : c'.outboxClosed = c.outboxClosed
  workClosed : c'.workClosed = c.workClosed
  rested : c.workClosed = true → c.work = [] ∧ c.current = none → c'.work = [] ∧ c'.current = none

theorem Client.Steady.refl (c : Client) : c.Steady c := ⟨rfl, rfl, rfl, rfl, fun _ h => h⟩

theorem Client.Steady.trans {c c' c'' : Client} (h : c.Steady c') (h' : c'.Steady c'') : c.Steady c'' where
  id := h'.id.trans h.id
  project := h'.project.trans h.project
  outboxClosed := h'.outboxClosed.trans h.outboxClosed
  workClosed := h'.workClosed.trans h.workClosed
  rested hc hr := h'.rested (h.workClosed ▸ hc) (h.rested hc hr)

theorem Client.steady_receive (c : Client) (m : Message) : c.Steady (c.receive m) := by
  unfold receive
  split
  · exact ⟨rfl, rfl, rfl, rfl, fun _ h => h⟩
  · exact .refl c

namespace Hub

/-- What most steps leave of the hub. -/
structure Steady (h h' : Hub) : Prop where
  rooms : h'.rooms = h.rooms
  faults : h'.faults = h.faults
  length : h'.clients.length = h.clients.length
  clients : ∀ (n : Nat) (c' : Client), h'.clients[n]? = some c' → ∃ c, h.clients[n]? = some c ∧ c.Steady c'

theorem Steady.sameSeats {h h' : Hub} (hs : h.Steady h') : h.SameSeats h' where
  rooms := hs.rooms
  faults := hs.faults
  length := hs.length
  clients n c' hc' := by
    obtain ⟨c, hc, hcs⟩ := hs.clients n c' hc'
    exact ⟨c, hc, hcs.id, hcs.project⟩

theorem Steady.refl (h : Hub) : h.Steady h := ⟨rfl, rfl, rfl, fun _ c' hc' => ⟨c', hc', .refl c'⟩⟩

theorem Steady.trans {h h' h'' : Hub} (a : h.Steady h') (b : h'.Steady h'') : h.Steady h'' where
  rooms := b.rooms.trans a.rooms
  faults := b.faults.trans a.faults
  length := b.length.trans a.length
  clients n c'' hc'' := by
    obtain ⟨c', hc', hb⟩ := b.clients n c'' hc''
    obtain ⟨c, hc, ha⟩ := a.clients n c' hc'
    exact ⟨c, hc, ha.trans hb⟩

/-- A client after another one, or itself, has been changed. -/
theorem getElem?_modify_cases {h : Hub} {n k : Nat} {f : Client → Client} {c' : Client}
    (hc' : (h.modify n f).clients[k]? = some c') :
    ∃ c, h.clients[k]? = some c ∧ (n = k ∧ c' = f c ∨ n ≠ k ∧ c' = c) := by
  rw [modify, List.getElem?_modify, Option.map_eq_map, Option.map_eq_some_iff] at hc'
  obtain ⟨c, hc, rfl⟩ := hc'
  by_cases hk : n = k
  · exact ⟨c, hc, .inl ⟨hk, by simp [hk]⟩⟩
  · exact ⟨c, hc, .inr ⟨hk, by simp [hk]⟩⟩

theorem length_modify (h : Hub) (n : Nat) (f : Client → Client) : (h.modify n f).clients.length = h.clients.length :=
  List.length_modify ..

theorem sameSeats_modify (h : Hub) (n : Nat) {f : Client → Client}
    (hf : ∀ c, (f c).id = c.id ∧ (f c).project = c.project) : h.SameSeats (h.modify n f) := by
  refine ⟨rfl, rfl, length_modify h n f, fun k c' hc' => ?_⟩
  obtain ⟨c, hc, ⟨-, rfl⟩ | ⟨-, rfl⟩⟩ := getElem?_modify_cases hc'
  · exact ⟨c, hc, hf c⟩
  · exact ⟨c', hc, rfl, rfl⟩

theorem steady_modify {h : Hub} {n : Nat} {f : Client → Client}
    (hf : ∀ c, h.clients[n]? = some c → c.Steady (f c)) : h.Steady (h.modify n f) := by
  refine ⟨rfl, rfl, length_modify h n f, fun k c' hc' => ?_⟩
  obtain ⟨c, hc, ⟨rfl, rfl⟩ | ⟨-, rfl⟩⟩ := getElem?_modify_cases hc'
  · exact ⟨c, hc, hf c hc⟩
  · exact ⟨c', hc, .refl c'⟩

theorem steady_enqueue (h : Hub) (m : Message) : h.Steady (h.enqueue m) :=
  ⟨rfl, rfl, rfl, fun _ c' hc' => ⟨c', hc', .refl c'⟩⟩

theorem steady_deliver (h : Hub) (project : String) (e : GeneratedEvent) : h.Steady (h.deliver project e) := by
  unfold deliver
  split
  · exact steady_enqueue h _
  · exact .refl h

/-- A message for a client whose queue is open. -/
theorem steady_send {h : Hub} {n : Nat} {c : Client} (hc : h.clients[n]? = some c) (ho : c.outboxClosed = false)
    (m : Message) : h.Steady (h.send m n) := by
  rw [send, hc]
  simp only [ho, Bool.false_eq_true, if_false]
  exact steady_modify fun c _ => c.steady_receive m

/-- An edit for a worker whose queue is open. -/
theorem steady_queue {h : Hub} {n : Nat} {c : Client} (hc : h.clients[n]? = some c) (ho : c.workClosed = false)
    (m : Message) : h.Steady (h.modify n fun c => { c with work := c.work ++ [m] }) := by
  refine steady_modify fun d hd => ⟨rfl, rfl, rfl, rfl, fun hw => ?_⟩
  rw [hc] at hd
  cases hd
  rw [ho] at hw
  cases hw

theorem steady_dispatch {h : Hub} {n : Nat} {c : Client} (hc : h.clients[n]? = some c)
    (hout : c.outboxClosed = false) (hwork : c.workClosed = false) (m : Message) : h.Steady (h.dispatch n m) := by
  unfold dispatch
  rw [hc]
  simp only [hwork, Bool.false_eq_true, if_false]
  split
  · exact steady_send hc hout _
  · split
    · exact steady_enqueue h m
    · split
      · exact steady_queue hc hwork m
      · exact steady_send hc hout _

/-- A reader whose client has both queues open. -/
theorem steady_receive {h : Hub} {n : Nat} {c : Client} (hc : h.clients[n]? = some c)
    (hout : c.outboxClosed = false) (hwork : c.workClosed = false) (bytes : Bytes) :
    h.Steady (h.receive n bytes) := by
  unfold receive
  rw [hc]
  dsimp only
  split
  · exact steady_dispatch hc hout hwork _
  · exact steady_send hc hout _

theorem steady_takeWork (h : Hub) (n : Nat) : h.Steady (h.takeWork n) := by
  refine steady_modify fun c _ => ?_
  split
  · exact ⟨rfl, rfl, rfl, rfl, fun _ hr => absurd hr.1 (by simp_all)⟩
  · exact .refl c

end Hub

/-- A worker answers its client only while that client's queue is open: it has an edit in hand. -/
theorem Sessions.steady_finishWork {σ : Type} (p : Processor σ) {s : Sessions σ} {n : Nat}
    (ho : ∀ c, s.hub.clients[n]? = some c → c.current ≠ none → c.outboxClosed = false) :
    s.hub.Steady (s.finishWork p n).hub := by
  unfold finishWork
  cases hc : s.hub.clients[n]? with
  | none => exact .refl _
  | some c =>
    dsimp only
    cases hcur : c.current with
    | none => exact .refl _
    | some m =>
      have hdone : s.hub.Steady (s.hub.modify n ({ · with current := none })) :=
        Hub.steady_modify fun d _ => ⟨rfl, rfl, rfl, rfl, fun _ hr => ⟨hr.1, rfl⟩⟩
      have hmod : (s.hub.modify n ({ · with current := none })).clients[n]? = some { c with current := none } := by
        rw [Hub.modify, List.getElem?_modify, hc]
        simp
      have hopen : c.outboxClosed = false := ho c hc (by simp [hcur])
      dsimp only
      split
      · split
        · exact hdone.trans (Hub.steady_enqueue _ _)
        · exact hdone.trans (Hub.steady_send hmod hopen _)
      · exact hdone

end Blockwright.Live
