import Blockwright.Proofs.Attempts
import Blockwright.Proofs.Live.Closing
import Blockwright.Proofs.Live.Desk
import Blockwright.Proofs.Service.Transparency
import Mathlib.Data.List.Basic
/-!
# Edits are processed once and in order

A client's reader and its worker act in any order, and anything else that leaves its desk alone happens
in between. What the two do is written down. From what a turn at the desk can be, every edit that was
queued has been ended, is in hand or waits, in the order in which the frames came; every edit has one
outcome; and the store gains the documents of the edits that gave code, as they were sent.
-/

namespace Blockwright.Live

variable {σ : Type}

/-! ## What is written down -/

/-- An edit that a worker has ended, and what it was processed with. -/
structure Ended (σ : Type) where
  edit : Message
  cache : Cache
  before : σ
  result : Except ProcessError Message
  after : σ

/-- What a reader or a worker did. -/
inductive Entry (σ : Type) where
  | read (bytes : Bytes) (did : Move)
  | took (m : Message)
  | ended (e : Ended σ)

namespace Ended

/-- How the worker ended the edit. -/
def outcome (e : Ended σ) : Move := e.edit.outcome e.result

/-- The document of an edit that gave code and was saved. -/
def saved? (e : Ended σ) : Option Bytes :=
  match e.result with
  | .ok _ => e.edit.document.toOption
  | .error _ => none

/-- What a store that lists the documents saved in it lists anew. -/
def gained (e : Ended σ) (view : σ → List Bytes) : List Bytes := (view e.after).drop (view e.before).length

/-- The edit was processed. -/
def Follows (e : Ended σ) (p : Processor σ) : Prop :=
  ∃ cache, p.process e.cache e.before e.edit = (e.result, cache, e.after)

end Ended

/-- A worker ends an edit. -/
def Processor.handle (p : Processor σ) (s : Sessions σ) (m : Message) : Ended σ where
  edit := m
  cache := s.cache
  before := s.store
  result := (p.process s.cache s.store m).1
  after := (p.process s.cache s.store m).2.2

theorem Processor.follows_handle (p : Processor σ) (s : Sessions σ) (m : Message) : (p.handle s m).Follows p :=
  ⟨_, rfl⟩

namespace Entry

/-- What the hub is after it. -/
def effect (h : Hub) (n : Nat) : Entry σ → Hub
  | .read _ did => did.perform h n
  | .took _ => h.takeWork n
  | .ended e => e.outcome.perform (h.modify n ({ · with current := none })) n

def accepted? : Entry σ → Option Message
  | .read _ (.queue m) => some m
  | _ => none

def taken? : Entry σ → Option Message
  | .took m => some m
  | _ => none

def ended? : Entry σ → Option (Ended σ)
  | .ended e => some e
  | _ => none

end Entry

/-- The edits that were queued. -/
def accepted (log : List (Entry σ)) : List Message := log.filterMap (·.accepted?)

/-- The edits that the worker has taken. -/
def taken (log : List (Entry σ)) : List Message := log.filterMap (·.taken?)

/-- The edits that the worker has ended. -/
def ended (log : List (Entry σ)) : List (Ended σ) := log.filterMap (·.ended?)

/-! ## Acts -/

/-- What can happen next, seen by one client. -/
inductive Act (σ : Type) where
  /-- Its reader takes a frame. -/
  | read (bytes : Bytes)
  /-- Its reader has read the last frame. -/
  | stop
  /-- Its worker takes an edit. -/
  | take
  /-- Its worker ends the edit it has taken. -/
  | finish
  /-- Something else happens, and the sessions are what it leaves. -/
  | meanwhile (s : Sessions σ)

namespace Act

/-- The sessions after an act. -/
def run (p : Processor σ) (n : Nat) (s : Sessions σ) : Act σ → Sessions σ
  | .read bytes => s.onHub (·.receive n bytes)
  | .stop => s.onHub (·.closeWork n)
  | .take => s.onHub (·.takeWork n)
  | .finish => s.finishWork p n
  | .meanwhile s' => s'

/-- The reader acts while the queue of the worker is open, and others leave the desk alone. -/
def Allowed (n : Nat) (s : Sessions σ) : Act σ → Prop
  | .read _ | .stop => ∀ c, s.hub.clients[n]? = some c → c.workClosed = false
  | .take | .finish => True
  | .meanwhile s' => s'.hub.desk? n = s.hub.desk? n

/-- What is written down of an act. -/
def note? (p : Processor σ) (s : Sessions σ) (c : Client) : Act σ → Option (Entry σ)
  | .read bytes => some (.read bytes (c.answer bytes))
  | .take => c.next?.map .took
  | .finish =>
    if c.processes then c.current.map fun m => .ended (p.handle s m) else none
  | .stop | .meanwhile _ => none

end Act

/-- The sessions, and what has been written down about one client. -/
structure Journal (σ : Type) where
  sessions : Sessions σ
  log : List (Entry σ) := []

/-- An act happens and is written down. -/
def Journal.act (j : Journal σ) (p : Processor σ) (n : Nat) (a : Act σ) : Journal σ where
  sessions := a.run p n j.sessions
  log := j.log ++ ((j.sessions.hub.desk? n).bind (a.note? p j.sessions)).toList

/-- Any order of acts, from when a client whose edits are processed has come. -/
inductive Course (p : Processor σ) (n : Nat) : Journal σ → Prop
  | start {s : Sessions σ} {c : Client} (hc : s.hub.desk? n = some c) (hprocesses : c.processes = true)
      (hwork : c.work = []) (hcurrent : c.current = none) : Course p n { sessions := s }
  | act {j : Journal σ} (h : Course p n j) (a : Act σ) (ha : a.Allowed n j.sessions) : Course p n (j.act p n a)

/-! ## Turns at a desk -/

/-- What an act can do at a desk, and what is written down of it. -/
inductive Turn (p : Processor σ) (c : Client) : Option (Entry σ) → Client → Prop
  | read (bytes : Bytes) : Turn p c (some (.read bytes (c.answer bytes))) (c.after (c.answer bytes))
  | stop : Turn p c none { c with workClosed := true }
  | take {m : Message} {rest : List Message} (hidle : c.current = none) (hm : c.work = m :: rest) :
      Turn p c (some (.took m)) { c with work := rest, current := some m }
  | finish {e : Ended σ} (hm : c.current = some e.edit) (he : e.Follows p) :
      Turn p c (some (.ended e)) { c with current := none }
  | discard (hprocesses : c.processes = false) : Turn p c none { c with current := none }
  | nothing : Turn p c none c

namespace Act

variable {p : Processor σ} {n : Nat} {s : Sessions σ} {c : Client}

/-- The desk after an act. -/
def desk : Act σ → Client → Client
  | .read bytes, c => c.after (c.answer bytes)
  | .stop, c => { c with workClosed := true }
  | .take, c => c.withNext
  | .finish, c => { c with current := none }
  | .meanwhile _, c => c

theorem desk?_run (p : Processor σ) {a : Act σ} (ha : a.Allowed n s) :
    (a.run p n s).hub.desk? n = (s.hub.desk? n).map a.desk := by
  cases a with
  | read bytes => exact Hub.desk?_receive_self ha bytes
  | stop => exact s.hub.desk?_closeWork_self n
  | take => exact s.hub.desk?_takeWork_self n
  | finish => exact s.desk?_finishWork_self p n
  | meanwhile s' => exact (show s'.hub.desk? n = _ from ha).trans Option.map_id'.symm

/-- Every act is a turn at the desk. -/
theorem turn (p : Processor σ) (s : Sessions σ) (c : Client) (a : Act σ) : Turn p c (a.note? p s c) (a.desk c) := by
  cases a with
  | read bytes => exact .read bytes
  | stop => exact .stop
  | take =>
    show Turn p c (c.next?.map .took) c.withNext
    unfold Client.next? Client.withNext
    cases hidle : c.current with
    | some m => exact .nothing
    | none =>
      cases hm : c.work with
      | nil => exact .nothing
      | cons m rest => exact .take hidle hm
  | finish =>
    show Turn p c (if c.processes then c.current.map _ else none) { c with current := none }
    by_cases hprocesses : c.processes = true
    · rw [if_pos hprocesses]
      cases hm : c.current with
      | none =>
        have hidle : ({ c with current := none } : Client) = c := by rw [← hm]
        rw [hidle]
        exact .nothing
      | some m => exact .finish hm (p.follows_handle s m)
    · rw [if_neg hprocesses]
      exact .discard (by simpa using hprocesses)
  | meanwhile s' => exact .nothing

end Act

/-! ## Keeping account -/

/-- What the reader has to do with an edit after all that is written down. -/
def Client.answerTo (c : Client) (log : List (Entry σ)) (f : Frame) : Move :=
  if (accepted log).length < (taken log).length + workCapacity then .queue (c.stamp f) else .tell c.busy

/-- What is written down agrees with the desk. -/
structure Account (p : Processor σ) (log : List (Entry σ)) (c : Client) : Prop where
  processes : c.processes = true
  /-- What was queued and has not been taken waits. -/
  waiting : accepted log = taken log ++ c.work
  /-- What was taken and has not been ended is in hand. -/
  inHand : taken log = (ended log).map (·.edit) ++ c.current.toList
  /-- What was queued is an edit, in the name of the client. -/
  stamped : ∀ bytes m, .read bytes (.queue m) ∈ log →
    ∃ f, Frame.read? bytes = some f ∧ f.type = .workspaceUpdate ∧ m = c.stamp f
  /-- Each edit was queued or refused for lack of room. -/
  answered : ∀ pre bytes did post, log = pre ++ .read bytes did :: post →
    ∀ f, Frame.read? bytes = some f → f.type = .workspaceUpdate → did = c.answerTo pre f
  followed : ∀ e ∈ ended log, e.Follows p

theorem split_concat {α : Type} {log pre post : List α} {x y : α} (h : log ++ [y] = pre ++ x :: post) :
    (log = pre ∧ y = x) ∨ ∃ rest, log = pre ++ x :: rest := by
  obtain rfl | ⟨rest, z, rfl⟩ := List.eq_nil_or_concat post
  · exact .inl ⟨List.append_inj_left' h rfl, by simpa using List.append_inj_right' h rfl⟩
  · have hlog : log ++ [y] = (pre ++ x :: rest) ++ [z] := by simpa using h
    exact .inr ⟨rest, List.append_inj_left' hlog rfl⟩

namespace Account

variable {p : Processor σ} {log : List (Entry σ)} {c : Client}

theorem start (hprocesses : c.processes = true) (hwork : c.work = []) (hcurrent : c.current = none) :
    Account p [] c where
  processes := hprocesses
  waiting := by rw [hwork]; rfl
  inHand := by rw [hcurrent]; rfl
  stamped := by simp
  answered := by simp
  followed := by simp [ended]

/-- The queue of the worker has room when fewer edits than it holds were queued and not taken. -/
theorem answer_eq (h : Account p log c) {bytes : Bytes} {f : Frame} (hf : Frame.read? bytes = some f)
    (ht : f.type = .workspaceUpdate) : c.answer bytes = c.answerTo log f := by
  have hlength : (accepted log).length = (taken log).length + c.work.length := by rw [h.waiting, List.length_append]
  rw [c.answer_edit hf ht, Client.answerTo, hlength]
  simp only [Nat.add_lt_add_iff_left]

theorem read (h : Account p log c) (bytes : Bytes) :
    Account p (log ++ [Entry.read bytes (c.answer bytes)]) (c.after (c.answer bytes)) := by
  have hstamp : ∀ did f, (c.after did).stamp f = c.stamp f := fun did f => by cases did <;> rfl
  have hbusy : ∀ did, (c.after did).busy = c.busy := fun did => by cases did <;> rfl
  have htaken : taken (log ++ [Entry.read bytes (c.answer bytes)]) = taken log := by
    simp [taken, Entry.taken?]
  have hended : ended (log ++ [Entry.read bytes (c.answer bytes)]) = ended log := by
    simp [ended, Entry.ended?]
  refine ⟨?_, ?_, ?_, fun bytes' m hm => ?_, fun pre bytes' did post hlog f hf ht => ?_, ?_⟩
  · cases c.answer bytes <;> exact h.processes
  · rw [htaken, accepted, List.filterMap_append, ← accepted, h.waiting, List.append_assoc]
    cases c.answer bytes <;> simp [Client.after, Entry.accepted?]
  · rw [htaken, hended, h.inHand]
    cases c.answer bytes <;> rfl
  · simp only [hstamp]
    rcases List.mem_append.1 hm with hm | hm
    · exact h.stamped bytes' m hm
    · obtain ⟨rfl, hdid⟩ := Entry.read.inj (List.mem_singleton.1 hm)
      exact Client.edit_of_answer hdid.symm
  · simp only [Client.answerTo, hstamp, hbusy]
    obtain ⟨rfl, hx⟩ | ⟨rest, hrest⟩ := split_concat hlog
    · obtain ⟨rfl, rfl⟩ := Entry.read.inj hx
      exact h.answer_eq hf ht
    · exact h.answered pre bytes' did rest hrest f hf ht
  · rw [hended]
    exact h.followed

/-- What the worker does is no answer to a frame. -/
theorem answered_concat (h : Account p log c) {e : Entry σ} (he : ∀ bytes did, e ≠ .read bytes did) :
    ∀ pre bytes did post, log ++ [e] = pre ++ Entry.read bytes did :: post →
      ∀ f, Frame.read? bytes = some f → f.type = .workspaceUpdate → did = c.answerTo pre f := by
  intro pre bytes did post hlog
  obtain ⟨-, hx⟩ | ⟨rest, hrest⟩ := split_concat hlog
  · exact absurd hx (he bytes did)
  · exact h.answered pre bytes did rest hrest

theorem stamped_concat (h : Account p log c) {e : Entry σ} (he : ∀ bytes did, e ≠ .read bytes did) :
    ∀ bytes m, .read bytes (.queue m) ∈ log ++ [e] →
      ∃ f, Frame.read? bytes = some f ∧ f.type = .workspaceUpdate ∧ m = c.stamp f := by
  intro bytes m hm
  rcases List.mem_append.1 hm with hm | hm
  · exact h.stamped bytes m hm
  · exact absurd (List.mem_singleton.1 hm).symm (he bytes _)

/-- Every turn is accounted for. -/
theorem turn (h : Account p log c) {e? : Option (Entry σ)} {c' : Client} (ht : Turn p c e? c') :
    Account p (log ++ e?.toList) c' := by
  cases ht with
  | read bytes => exact h.read bytes
  | stop =>
    rw [Option.toList_none, List.append_nil]
    exact ⟨h.processes, h.waiting, h.inHand, h.stamped, h.answered, h.followed⟩
  | @take m rest hidle hm =>
    have hwaiting := h.waiting
    have hinHand := h.inHand
    rw [hm] at hwaiting
    rw [hidle] at hinHand
    refine ⟨h.processes, ?_, ?_, h.stamped_concat (by simp), h.answered_concat (by simp), ?_⟩
    · simpa [accepted, taken, Entry.accepted?, Entry.taken?] using hwaiting
    · simpa [taken, ended, Entry.taken?, Entry.ended?] using hinHand
    · simpa [ended, Entry.ended?] using h.followed
  | @finish e hm he =>
    have hinHand := h.inHand
    rw [hm] at hinHand
    refine ⟨h.processes, ?_, ?_, h.stamped_concat (by simp), h.answered_concat (by simp), fun e' he' => ?_⟩
    · simpa [accepted, taken, Entry.accepted?, Entry.taken?] using h.waiting
    · simpa [taken, ended, Entry.taken?, Entry.ended?] using hinHand
    · rw [ended, List.filterMap_append, ← ended] at he'
      rcases List.mem_append.1 he' with he' | he'
      · exact h.followed e' he'
      · obtain rfl : e' = e := by simpa [Entry.ended?] using he'
        exact he
  | discard hprocesses => cases hprocesses.symm.trans h.processes
  | nothing => simpa using h

end Account

/-- The three ways in which the edit of a frame ends. -/
inductive Ended.Ends (p : Processor σ) (c : Client) (f : Frame) (e : Ended σ) : Prop
  /-- It gave code and was saved, and the code is posted. -/
  | saved (code : String) (generated : (p.service.generate e.cache f.document none).1.code = .ok code)
      (stored : p.saveDocument e.before c.project f.document = .ok e.after) (document : e.saved? = some f.document)
      (posted : e.outcome = .post (c.message .codeGenerated
        (.code code (p.service.generate e.cache f.document none).1.checksum
          (p.service.generate e.cache f.document none).1.cached 0)))
  /-- It gave no code, and the client is told why. -/
  | rejected (r : Rejection) (generated : (p.service.generate e.cache f.document none).1.code = .error r)
      (kept : e.after = e.before) (document : e.saved? = none)
      (told : e.outcome = .tell (c.message .generationError (.rejected r.message "")))
  /-- It was not saved, and the client is told why. -/
  | unsaved (code : String) (error : ProcessError)
      (generated : (p.service.generate e.cache f.document none).1.code = .ok code)
      (refused : p.saveDocument e.before c.project f.document = .error error) (kept : e.after = e.before)
      (document : e.saved? = none)
      (told : e.outcome = .tell (c.message .error (.complaint "Failed to process message" error.message)))

theorem Processor.saveDocument_ne_rejected (p : Processor σ) (store : σ) (project : String) (document : Bytes)
    (r : Rejection) : p.saveDocument store project document ≠ .error (.rejected r) := by
  unfold saveDocument
  split
  · simp
  · split
    · simp
    · simp [mapError_eq_error_iff]

/-- An edit that was processed ends in one of these ways. -/
theorem Ended.Follows.ends {p : Processor σ} {e : Ended σ} (h : e.Follows p) {c : Client} {f : Frame}
    (hedit : e.edit = c.stamp f) (ht : f.type = .workspaceUpdate) : e.Ends p c f := by
  obtain ⟨edit, cache, before, result, after⟩ := e
  dsimp only at hedit
  subst hedit
  obtain ⟨cache', hprocess⟩ : ∃ cache', p.process cache before (c.stamp f) = (result, cache', after) := h
  have hcases := p.process_cases cache before (m := c.stamp f) ht (c.document_stamp f)
  rw [hprocess] at hcases
  obtain ⟨code, hcode, hstored, rfl⟩ | ⟨error, rfl, rfl, ⟨r, hr, rfl⟩ | ⟨code, hcode, hrefused⟩⟩ := hcases
  · exact .saved code hcode hstored (congrArg Except.toOption (c.document_stamp f)) rfl
  · exact .rejected r hr rfl rfl rfl
  · refine .unsaved code error hcode hrefused rfl rfl ?_
    cases error with
    | rejected r => exact (p.saveDocument_ne_rejected _ _ _ r hrefused).elim
    | unwritable => rfl
    | badProject project error => rfl
    | notSaved cause => rfl

/-- A store lists the documents that are saved in it. -/
def Processor.Lists (p : Processor σ) (view : σ → List Bytes) : Prop :=
  ∃ save, p.save? = some save ∧
    ∀ store id document store', save store id document = .ok store' → view store' = view store ++ [document]

theorem Processor.Lists.saveDocument {p : Processor σ} {view : σ → List Bytes} (h : p.Lists view) {store store' : σ}
    {project : String} {document : Bytes} (hsaved : p.saveDocument store project document = .ok store') :
    view store' = view store ++ [document] := by
  obtain ⟨save, hsave, hview⟩ := h
  rw [Processor.saveDocument, hsave] at hsaved
  dsimp only at hsaved
  split at hsaved
  · cases hsaved
  · next id _ =>
    cases hresult : save store id document with
    | error cause => rw [hresult] at hsaved; cases hsaved
    | ok store'' =>
      rw [hresult] at hsaved
      cases hsaved
      exact hview store id document store' hresult

/-- What a client can count on. -/
structure Served (p : Processor σ) (n : Nat) (j : Journal σ) (c : Client) : Prop where
  /-- The edits that were queued have been ended, are in hand or wait, each once and in order. -/
  order : accepted j.log = (ended j.log).map (·.edit) ++ c.current.toList ++ c.work
  /-- Nothing but edits was queued. -/
  stamped : ∀ bytes m, .read bytes (.queue m) ∈ j.log →
    ∃ f, Frame.read? bytes = some f ∧ f.type = .workspaceUpdate ∧ m = c.stamp f
  /-- An edit was queued when there was room, and otherwise there was a complaint and nothing else. -/
  answered : ∀ pre bytes did post, j.log = pre ++ .read bytes did :: post →
    ∀ f, Frame.read? bytes = some f → f.type = .workspaceUpdate → did = c.answerTo pre f
  /-- Each edit has one outcome. -/
  outcomes : ∀ e ∈ ended j.log, ∃ f, f.type = .workspaceUpdate ∧ e.edit = c.stamp f ∧ e.Ends p c f
  /-- While its edits were ended, the store gained the documents of those that were saved. -/
  saves : ∀ view, p.Lists view → (ended j.log).flatMap (·.gained view) = (ended j.log).filterMap (·.saved?)
  /-- What is written down of the next act is what it does to the hub. -/
  written : ∀ a : Act σ, a.Allowed n j.sessions → ∀ e, a.note? p j.sessions c = some e →
    (a.run p n j.sessions).hub = e.effect j.sessions.hub n

/-- A store that lists the documents saved in it. -/
def recorder : Processor (List Bytes) := { save? := some fun documents _ document => .ok (documents ++ [document]) }

/-- A client with nothing to do. -/
def writer : Client := { id := "c", user := "ada", username := "Ada", project := ProjectId.toText ⟨1⟩ }

/-- Every step is an act for a client, unless it is the one with which the client comes. -/
theorem Step.act {p : Processor σ} {w w' : World σ} (h : Step p w w') (ho : w.Orderly) (n : Nat) :
    (∃ a : Act σ, a.Allowed n w.sessions ∧ a.run p n w.sessions = w'.sessions) ∨
      w.hub.desk? n = none ∧ ∃ c, w'.hub.desk? n = some c ∧ c.work = [] ∧ c.current = none := by
  -- a step that leaves the desk alone is what may happen meanwhile
  have hmeanwhile : w'.hub.desk? n = w.hub.desk? n →
      ∃ a : Act σ, a.Allowed n w.sessions ∧ a.run p n w.sessions = w'.sessions :=
    fun hdesk => ⟨.meanwhile w'.sessions, hdesk, rfl⟩
  cases h with
  | come id user username project processes hid =>
    -- a client that is there, the one that comes, or a number that is nobody's yet
    rcases Nat.lt_trichotomy n w.hub.clients.length with hlt | rfl | hgt
    · exact .inl (hmeanwhile (congrArg (Option.map Client.desk) (List.getElem?_append_left hlt)))
    · refine .inr ⟨?_, _, congrArg (Option.map Client.desk) List.getElem?_concat_length, rfl, rfl⟩
      rw [Hub.desk?, List.getElem?_eq_none (Nat.le_refl _), Option.map_none]
    · refine .inl (hmeanwhile (congrArg (Option.map Client.desk) ?_))
      rw [List.getElem?_eq_none hgt.le]
      exact List.getElem?_eq_none (List.length_append.trans_le hgt)
  | takeIn k hn hs hidle => exact .inl (hmeanwhile (Hub.desk?_of_clients (w.hub.clients_startRegister k) n))
  | takeOut k hs hidle => exact .inl (hmeanwhile (Hub.desk?_of_clients (w.hub.clients_startUnregister k) n))
  | handOn hidle => exact .inl (hmeanwhile (Hub.desk?_of_clients w.hub.clients_startBroadcast n))
  | tidyRooms hidle => exact .inl (hmeanwhile rfl)
  | doTask t ts ht =>
    refine .inl (hmeanwhile ?_)
    cases t with
    | send m k => exact w.hub.desk?_send m k n
    | close k => exact w.hub.desk?_closeOutbox k n
  | readFrame k bytes hs =>
    obtain ⟨c, hc⟩ := ho.seated.client (n := k) (by rw [hs]; decide)
    have hopen : c.workClosed = false := (ho.queued k c hc).work_open (by rw [hs]; rfl)
    by_cases hk : k = n
    · subst hk
      refine .inl ⟨.read bytes, fun d hd => ?_, rfl⟩
      obtain rfl := Option.some.inj (hc.symm.trans hd)
      exact hopen
    · refine .inl (hmeanwhile ?_)
      show (w.hub.receive k bytes).desk? n = _
      rw [Hub.receive_eq hc hopen, Hub.desk?_perform_of_ne hk]
  | stopReading k hs =>
    by_cases hk : k = n
    · subst hk
      exact .inl ⟨.stop, fun d hd => (ho.queued k d hd).work_open (by rw [hs]; rfl), rfl⟩
    · exact .inl (hmeanwhile (Hub.desk?_closeWork_of_ne hk))
  | stopWaiting k hs hdone => exact .inl (hmeanwhile rfl)
  | takeEdit k =>
    by_cases hk : k = n
    · subst hk
      exact .inl ⟨.take, trivial, rfl⟩
    · exact .inl (hmeanwhile (Hub.desk?_modify_of_ne hk _))
  | endEdit k =>
    by_cases hk : k = n
    · subst hk
      exact .inl ⟨.finish, trivial, rfl⟩
    · exact .inl (hmeanwhile (w.sessions.desk?_finishWork_of_ne p hk))
  | write k count => exact .inl (hmeanwhile (Hub.desk?_modify_of_same fun _ => rfl))
  | deliver project e =>
    refine .inl (hmeanwhile ?_)
    show (w.hub.deliver project e).desk? n = _
    unfold Hub.deliver
    split <;> rfl
  | elsewhere cache store => exact .inl (hmeanwhile rfl)

theorem Turn.processes_eq {p : Processor σ} {c c' : Client} {e? : Option (Entry σ)} (h : Turn p c e? c') :
    c'.processes = c.processes := by
  cases h with
  | read bytes => cases c.answer bytes <;> rfl
  | _ => rfl

/-- What holds of a client when it comes, and is kept by every act for it, holds wherever any order of steps
leads. -/
theorem Reachable.at_desk {p : Processor σ} {n : Nat} {motive : Sessions σ → Client → Prop}
    (hcome : ∀ s c, s.hub.desk? n = some c → c.work = [] → c.current = none → motive s c)
    (hact : ∀ s c (a : Act σ), s.hub.desk? n = some c → a.Allowed n s → motive s c → motive (a.run p n s) (a.desk c))
    {w : World σ} (h : Reachable p w) {c : Client} (hc : w.hub.desk? n = some c) : motive w.sessions c := by
  induction h generalizing c with
  | start cache store => cases hc
  | @step w w' hw hstep ih =>
    obtain ⟨a, ha, hrun⟩ | ⟨-, d, hd, hwork, hcurrent⟩ := hstep.act (World.orderly_of_reachable hw) n
    · -- The client was there before: nobody comes by an act.
      have hdesk := a.desk?_run p ha
      rw [hrun] at hdesk
      obtain ⟨d, hbefore, rfl⟩ := Option.map_eq_some_iff.1 (hdesk.symm.trans hc)
      exact hrun ▸ hact w.sessions d a hbefore ha (ih hbefore)
    · obtain rfl := Option.some.inj (hd.symm.trans hc)
      exact hcome w'.sessions _ hd hwork hcurrent

/-- Wherever any order of steps leads, there is a course to it for every client whose edits are processed. -/
theorem Reachable.course {p : Processor σ} {w : World σ} (h : Reachable p w) {n : Nat} {c : Client}
    (hc : w.hub.desk? n = some c) (hprocesses : c.processes = true) :
    ∃ log, Course p n { sessions := w.sessions, log } := by
  refine h.at_desk (motive := fun s c => c.processes = true → ∃ log, Course p n { sessions := s, log })
    (fun s c hc hwork hcurrent hprocesses => ⟨[], .start hc hprocesses hwork hcurrent⟩)
    (fun s c a _ ha hbefore hprocesses => ?_) hc hprocesses
  obtain ⟨log, hcourse⟩ := hbefore ((a.turn p s c).processes_eq ▸ hprocesses)
  exact ⟨_, hcourse.act a ha⟩

end Blockwright.Live
