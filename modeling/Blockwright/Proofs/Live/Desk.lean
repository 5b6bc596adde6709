import Blockwright.Live.Session
/-!
# What a reader and a worker do

A reader answers each frame with one move, and a worker ends each edit with one: an edit is queued, a
message is posted to the hub, or the client is told something, if there is room for it. The desk of a
client is all of it but the queue of messages that wait for it. Nobody but its reader and its worker
touches it.
-/

namespace Blockwright.Live

/-! ## Moves -/

/-- What a reader or a worker does in the name of its client. -/
inductive Move where
  /-- An edit is put in the queue of the worker. -/
  | queue (m : Message)
  /-- A message is put in the queue of the hub. -/
  | post (m : Message)
  /-- A message is put in the queue of the client, unless that is full. -/
  | tell (m : Message)

/-- A move of the client of a number. -/
def Move.perform (h : Hub) (n : Nat) : Move → Hub
  | .queue m => h.modify n fun c => { c with work := c.work ++ [m] }
  | .post m => h.enqueue m
  | .tell m => h.send m n

theorem MessageType.isProcessed_iff {t : MessageType} : t.isProcessed = true ↔ t = .workspaceUpdate := by
  cases t <;> simp [isProcessed]

namespace Client

/-- The complaint about a frame of a type that clients may not send. -/
def unsupported (c : Client) (t : MessageType) : Message :=
  c.message .error (.complaint ("Unsupported message type: " ++ t.text) "")

/-- The complaint about an edit that finds the queue of the worker full. -/
def busy (c : Client) : Message := c.message .error (.complaint "Server is busy, please try again" "")

/-- What the reader does with a frame. -/
def answer (c : Client) (bytes : Bytes) : Move :=
  match Frame.read? bytes with
  | none => .tell c.unreadable
  | some f =>
    if !f.type.isAllowed then .tell (c.unsupported f.type)
    else if !f.type.isProcessed then .post (c.stamp f)
    else if c.work.length < workCapacity then .queue (c.stamp f)
    else .tell c.busy

/-- An edit is queued when there is room for it, and otherwise there is a complaint. -/
theorem answer_edit (c : Client) {bytes : Bytes} {f : Frame} (hf : Frame.read? bytes = some f)
    (ht : f.type = .workspaceUpdate) :
    c.answer bytes = if c.work.length < workCapacity then .queue (c.stamp f) else .tell c.busy := by
  simp [answer, hf, ht, MessageType.isAllowed, MessageType.isProcessed]

/-- Nothing but an edit is queued. -/
theorem edit_of_answer {c : Client} {bytes : Bytes} {m : Message} (h : c.answer bytes = .queue m) :
    ∃ f, Frame.read? bytes = some f ∧ f.type = .workspaceUpdate ∧ m = c.stamp f := by
  unfold answer at h
  split at h
  · cases h
  · next f hf =>
    split at h
    · cases h
    · split at h
      · cases h
      · next hprocessed =>
        have ht : f.type.isProcessed = true := by simpa using hprocessed
        split at h
        · exact ⟨f, hf, MessageType.isProcessed_iff.1 ht, (Move.queue.inj h).symm⟩
        · cases h

end Client

/-- While the queue of the worker is open, the reader answers a frame with its move. -/
theorem Hub.receive_eq {h : Hub} {n : Nat} {c : Client} (hc : h.clients[n]? = some c) (hopen : c.workClosed = false)
    (bytes : Bytes) : h.receive n bytes = (c.answer bytes).perform h n := by
  unfold receive Client.answer
  rw [hc]
  cases Frame.read? bytes with
  | none => rfl
  | some f =>
    dsimp only
    unfold dispatch
    rw [hc]
    simp only [hopen, Bool.false_eq_true, if_false]
    show (if !f.type.isAllowed then _ else if !f.type.isProcessed then _ else _) = _
    split
    · rfl
    · split
      · rfl
      · split <;> rfl

/-! ## Edits -/

/-- The document of an edit: the data of the frame as it was sent. -/
def Frame.document (f : Frame) : Bytes := f.data.getD (Text.bytesOf "null")

theorem Client.document_stamp (c : Client) (f : Frame) : (c.stamp f).document = .ok f.document := by
  obtain ⟨type, data⟩ := f
  cases data <;> rfl

/-- What the worker does about an edit that was processed. -/
def Message.outcome (m : Message) : Except ProcessError Message → Move
  | .ok code => .post code
  | .error e => .tell (m.replyTo e)

/-- An edit is saved when it gave code, and then its code is the result. When it gave none, or could not
be saved, the store is as before. -/
theorem Processor.process_cases {σ : Type} (p : Processor σ) (cache : Cache) (store : σ) {m : Message}
    {document : Bytes} (hm : m.type = .workspaceUpdate) (hdocument : m.document = .ok document) :
    (∃ code, (p.service.generate cache document none).1.code = .ok code ∧
      p.saveDocument store m.project document = .ok (p.process cache store m).2.2 ∧
      (p.process cache store m).1 = .ok (codeMessage m code (p.service.generate cache document none).1)) ∨
    (∃ e, (p.process cache store m).1 = .error e ∧ (p.process cache store m).2.2 = store ∧
      ((∃ r, (p.service.generate cache document none).1.code = .error r ∧ e = .rejected r) ∨
        ∃ code, (p.service.generate cache document none).1.code = .ok code ∧
          p.saveDocument store m.project document = .error e)) := by
  have hprocess : p.process cache store m = p.processUpdate cache store m :=
    if_pos (MessageType.isProcessed_iff.2 hm)
  rw [hprocess, processUpdate, hdocument]
  dsimp only
  split
  · next r hr => exact .inr ⟨_, rfl, rfl, .inl ⟨r, hr, rfl⟩⟩
  · next code hcode =>
    split
    · next e he => exact .inr ⟨e, rfl, rfl, .inr ⟨code, hcode, he⟩⟩
    · next store' hstore => exact .inl ⟨code, hcode, hstore, rfl⟩

/-- The worker ends an edit with its move, and nothing else of the hub changes. -/
theorem Sessions.finishWork_eq {σ : Type} {p : Processor σ} {s : Sessions σ} {n : Nat} {c : Client} {m : Message}
    (hc : s.hub.clients[n]? = some c) (hm : c.current = some m) (hprocesses : c.processes = true) :
    s.finishWork p n =
      { hub := (m.outcome (p.process s.cache s.store m).1).perform (s.hub.modify n ({ · with current := none })) n
        cache := (p.process s.cache s.store m).2.1
        store := (p.process s.cache s.store m).2.2 } := by
  simp only [finishWork, hc, hm, hprocesses, if_true]
  cases (p.process s.cache s.store m).1 <;> rfl

/-! ## Desks -/

/-- A client without the messages that wait for it. -/
def Client.desk (c : Client) : Client := { c with outbox := [], outboxClosed := false }

theorem Client.id_of_desk {c d : Client} (h : c.desk = d.desk) : c.id = d.id := by
  have hid : c.desk.id = d.desk.id := congrArg Client.id h
  exact hid

theorem Client.project_of_desk {c d : Client} (h : c.desk = d.desk) : c.project = d.project := by
  have hproject : c.desk.project = d.desk.project := congrArg Client.project h
  exact hproject

/-- The desk after a move: an edit that is queued waits there. -/
def Client.after (c : Client) : Move → Client
  | .queue m => { c with work := c.work ++ [m] }
  | _ => c

/-- The edit that the worker takes next, if it is idle. -/
def Client.next? (c : Client) : Option Message :=
  match c.current, c.work with
  | none, m :: _ => some m
  | _, _ => none

/-- The client when its worker has taken the next edit. -/
def Client.withNext (c : Client) : Client :=
  match c.current, c.work with
  | none, m :: rest => { c with work := rest, current := some m }
  | _, _ => c

theorem Client.desk_withNext (c : Client) : c.withNext.desk = c.desk.withNext := by
  unfold withNext
  show _ = match c.current, c.work with
    | none, m :: rest => { c.desk with work := rest, current := some m }
    | _, _ => c.desk
  cases c.current <;> cases c.work <;> rfl

namespace Hub

/-- The desk of the client of a number. -/
def desk? (h : Hub) (n : Nat) : Option Client := (h.clients[n]?).map (·.desk)

theorem desk?_of_client {h : Hub} {n : Nat} {c : Client} (hc : h.clients[n]? = some c) : h.desk? n = some c.desk := by
  rw [desk?, hc, Option.map_some]

theorem client_of_desk? {h : Hub} {n : Nat} {c : Client} (hc : h.desk? n = some c) :
    ∃ d, h.clients[n]? = some d ∧ d.desk = c := Option.map_eq_some_iff.1 hc

theorem desk?_modify_self {h : Hub} {n : Nat} {f : Client → Client} (hf : ∀ c, (f c).desk = f c.desk) :
    (h.modify n f).desk? n = (h.desk? n).map f := by
  rw [desk?, modify, List.getElem?_modify_eq, desk?]
  cases h.clients[n]? with
  | none => rfl
  | some c => exact congrArg some (hf c)

theorem desk?_modify_of_ne {h : Hub} {n k : Nat} (hne : k ≠ n) (f : Client → Client) :
    (h.modify k f).desk? n = h.desk? n := by
  rw [desk?, modify, List.getElem?_modify, desk?]
  cases h.clients[n]? <;> simp [hne]

theorem desk?_modify_of_same {h : Hub} {n k : Nat} {f : Client → Client} (hf : ∀ c, (f c).desk = c.desk) :
    (h.modify k f).desk? n = h.desk? n := by
  rw [desk?, modify, List.getElem?_modify, desk?]
  cases h.clients[n]? with
  | none => rfl
  | some c =>
    by_cases hk : k = n
    · simp [hk, hf]
    · simp [hk]

theorem desk?_send (h : Hub) (m : Message) (k n : Nat) : (h.send m k).desk? n = h.desk? n := by
  unfold send
  split
  · split
    · rfl
    · refine desk?_modify_of_same fun c => ?_
      unfold Client.receive
      split <;> rfl
  · rfl

theorem desk?_of_clients {h h' : Hub} (hclients : h'.clients = h.clients) (n : Nat) : h'.desk? n = h.desk? n := by
  rw [desk?, hclients, desk?]

theorem desk?_closeOutbox (h : Hub) (k n : Nat) : (h.closeOutbox k).desk? n = h.desk? n := by
  unfold closeOutbox
  split
  · split
    · rfl
    · exact desk?_modify_of_same fun _ => rfl
  · rfl

/-- A move touches no desk but that of its client. -/
theorem desk?_perform_of_ne {h : Hub} {k n : Nat} (hne : k ≠ n) (did : Move) :
    (did.perform h k).desk? n = h.desk? n := by
  cases did with
  | queue m => exact desk?_modify_of_ne hne _
  | post m => rfl
  | tell m => exact desk?_send h m k n

theorem desk?_perform_self (h : Hub) (n : Nat) (did : Move) :
    (did.perform h n).desk? n = (h.desk? n).map (·.after did) := by
  cases did with
  | queue m => exact desk?_modify_self fun _ => rfl
  | post m => exact Option.map_id'.symm
  | tell m => exact (desk?_send h m n n).trans Option.map_id'.symm

/-- The reader answers a frame at the desk of its client. -/
theorem desk?_receive_self {h : Hub} {n : Nat} (hopen : ∀ c, h.clients[n]? = some c → c.workClosed = false)
    (bytes : Bytes) : (h.receive n bytes).desk? n = (h.desk? n).map fun c => c.after (c.answer bytes) := by
  cases hc : h.clients[n]? with
  | none => simp [receive, hc, desk?]
  | some c =>
    rw [receive_eq hc (hopen c hc), desk?_perform_self, desk?_of_client hc]
    rfl

theorem desk?_closeWork_self (h : Hub) (n : Nat) :
    (h.closeWork n).desk? n = (h.desk? n).map ({ · with workClosed := true }) := by
  unfold closeWork
  split
  · next hnone => rw [desk?, hnone]; rfl
  · next c hc =>
    split
    · next hclosed =>
      show h.desk? n = _
      rw [desk?_of_client hc, Option.map_some, Client.desk, ← hclosed]
    · exact desk?_modify_self fun _ => rfl

theorem desk?_closeWork_of_ne {h : Hub} {k n : Nat} (hne : k ≠ n) : (h.closeWork k).desk? n = h.desk? n := by
  unfold closeWork
  split
  · rfl
  · split
    · rfl
    · exact desk?_modify_of_ne hne _

theorem desk?_takeWork_self (h : Hub) (n : Nat) : (h.takeWork n).desk? n = (h.desk? n).map (·.withNext) :=
  desk?_modify_self Client.desk_withNext

end Hub

namespace Sessions

variable {σ : Type}

theorem desk?_finishWork_self (p : Processor σ) (s : Sessions σ) (n : Nat) :
    (s.finishWork p n).hub.desk? n = (s.hub.desk? n).map ({ · with current := none }) := by
  cases hc : s.hub.clients[n]? with
  | none => simp [finishWork, hc, Hub.desk?]
  | some c =>
    have hended : (s.hub.modify n ({ · with current := none })).desk? n =
        (s.hub.desk? n).map ({ · with current := none }) := Hub.desk?_modify_self fun _ => rfl
    cases hcurrent : c.current with
    | none =>
      -- There is nothing to end.
      simp only [finishWork, hc, hcurrent]
      rw [Hub.desk?_of_client hc, Option.map_some, Client.desk, ← hcurrent]
    | some m =>
      cases hprocesses : c.processes with
      | true =>
        rw [finishWork_eq hc hcurrent hprocesses, Hub.desk?_perform_self, hended, Option.map_map]
        cases (p.process s.cache s.store m).1 <;> rfl
      | false =>
        simp only [finishWork, hc, hcurrent, hprocesses, Bool.false_eq_true, if_false]
        exact hended

theorem desk?_finishWork_of_ne (p : Processor σ) (s : Sessions σ) {k n : Nat} (hne : k ≠ n) :
    (s.finishWork p k).hub.desk? n = s.hub.desk? n := by
  unfold finishWork
  split
  · rfl
  · split
    · rfl
    · dsimp only
      split
      · split
        · exact Hub.desk?_modify_of_ne hne _
        · rw [Hub.desk?_send, Hub.desk?_modify_of_ne hne]
      · exact Hub.desk?_modify_of_ne hne _

end Sessions
end Blockwright.Live
