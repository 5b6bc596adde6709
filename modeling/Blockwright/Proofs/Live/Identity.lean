import Blockwright.Proofs.Live.Edits
/-!
# What a frame can lead to

A ledger is kept of the frames of a client: which of them are edits that wait or are in hand, and what
became of each of the others. A frame is in one place of the ledger, so it leads to one message for the
room at most, in the name of its client, and to none when it is refused or its edit fails.
-/

namespace Blockwright.Live

variable {σ : Type}

/-! ## Posting -/

/-- The message that a move puts in the queue of the hub. -/
def Move.posted? : Move → Option Message
  | .post m => some m
  | .queue _ | .tell _ => none

theorem Hub.queue_send (h : Hub) (m : Message) (n : Nat) : (h.send m n).queue = h.queue := by
  unfold send
  split
  · split <;> rfl
  · rfl

theorem Hub.queue_perform (h : Hub) (n : Nat) (did : Move) :
    (did.perform h n).queue = h.queue ++ did.posted?.toList := by
  cases did with
  | queue m => exact (List.append_nil _).symm
  | post m => rfl
  | tell m => exact (h.queue_send m n).trans (List.append_nil _).symm

theorem Hub.queue_closeWork (h : Hub) (n : Nat) : (h.closeWork n).queue = h.queue := by
  unfold closeWork
  split
  · rfl
  · split <;> rfl

/-- Only a frame that moves the cursor or says something is relayed. -/
theorem Client.relay_of_answer {c : Client} {bytes : Bytes} {m : Message} (h : c.answer bytes = .post m) :
    ∃ f, Frame.read? bytes = some f ∧ (f.type = .cursorMove ∨ f.type = .chat) ∧ m = c.stamp f := by
  unfold answer at h
  split at h
  · cases h
  · next f hf =>
    refine ⟨f, hf, ?_⟩
    obtain ⟨type, data⟩ := f
    cases type with
    | cursorMove => exact ⟨.inl rfl, (Move.post.inj h).symm⟩
    | chat => exact ⟨.inr rfl, (Move.post.inj h).symm⟩
    | workspaceUpdate =>
      simp only [MessageType.isAllowed, MessageType.isProcessed, Bool.not_true, Bool.false_eq_true, if_false] at h
      split at h <;> cases h
    | codeGenerated => cases h
    | generationError => cases h
    | userJoin => cases h
    | userLeave => cases h
    | error => cases h
    | other name => cases h

/-! ## Ledgers -/

/-- What became of a frame. -/
inductive Fate where
  /-- The client was told that it cannot be read, is of a type that is not accepted or comes too fast. -/
  | refused (m : Message)
  /-- It was passed on. -/
  | relayed (m : Message)
  /-- It is an edit that was processed. -/
  | processed (result : Except ProcessError Message)
  /-- It is an edit of a client whose edits are not processed. -/
  | dropped

/-- The message that came of it for everybody in the room. -/
def Fate.posted? : Fate → Option Message
  | .relayed m => some m
  | .processed result => result.toOption
  | .refused _ | .dropped => none

/-- The frames of a client so far; each goes by its position. -/
structure Ledger where
  frames : List Bytes := []
  /-- The edits that wait. -/
  waiting : List Nat := []
  /-- The edit that the worker has taken. -/
  inHand : Option Nat := none
  /-- What became of the others. -/
  done : List (Nat × Fate) := []

namespace Ledger

/-- The messages that were put in the queue of the hub. -/
def posted (l : Ledger) : List Message := l.done.filterMap (·.2.posted?)

/-- Where each frame is. -/
def places (l : Ledger) : List Nat := l.done.map (·.1) ++ l.inHand.toList ++ l.waiting

/-- A frame has come. -/
def hear (l : Ledger) (bytes : Bytes) : Ledger := { l with frames := l.frames ++ [bytes] }

/-- It is known what became of a frame. -/
def settle (l : Ledger) (k : Nat) (fate : Fate) : Ledger := { l with done := l.done ++ [(k, fate)] }

/-- The reader has answered a frame with a move. -/
def read (l : Ledger) (bytes : Bytes) : Move → Ledger
  | .queue _ => { l.hear bytes with waiting := l.waiting ++ [l.frames.length] }
  | .post m => (l.hear bytes).settle l.frames.length (.relayed m)
  | .tell m => (l.hear bytes).settle l.frames.length (.refused m)

/-- The worker has taken the oldest edit. -/
def take (l : Ledger) : Ledger :=
  match l.inHand, l.waiting with
  | none, k :: rest => { l with waiting := rest, inHand := some k }
  | _, _ => l

/-- The worker has ended the edit that it had taken. -/
def finish (l : Ledger) (fate : Fate) : Ledger :=
  match l.inHand with
  | none => l
  | some k => { l with inHand := none }.settle k fate

/-- What an act adds, when the desk of the client was `c` before it. -/
def next (l : Ledger) (p : Processor σ) (s : Sessions σ) (c : Client) : Act σ → Ledger
  | .read bytes => l.read bytes (c.answer bytes)
  | .take => l.take
  | .finish =>
    match c.current with
    | none => l
    | some m => l.finish (if c.processes then .processed (p.process s.cache s.store m).1 else .dropped)
  | .stop | .meanwhile _ => l

/-- Any order of acts, from when the client has come, and the ledger of its frames. -/
inductive Kept (p : Processor σ) (n : Nat) (owner : Client) : Sessions σ → Ledger → Prop
  | start {s : Sessions σ} (hc : s.hub.desk? n = some owner) (hwork : owner.work = []) (hcurrent : owner.current = none) :
      Kept p n owner s {}
  | act {s : Sessions σ} {l : Ledger} {c : Client} (h : Kept p n owner s l) (hc : s.hub.desk? n = some c) (a : Act σ)
      (ha : a.Allowed n s) : Kept p n owner (a.run p n s) (l.next p s c a)

/-! ## Frames and what came of them -/

/-- The message is the edit of the frame at a position. -/
def EditAt (owner : Client) (frames : List Bytes) (k : Nat) (m : Message) : Prop :=
  ∃ bytes f, frames[k]? = some bytes ∧ Frame.read? bytes = some f ∧ f.type = .workspaceUpdate ∧ m = owner.stamp f

/-- The message is what the frame at a position says, or the code of its edit, in the name of the client. -/
def Speaks (owner : Client) (frames : List Bytes) (k : Nat) (m : Message) : Prop :=
  ∃ bytes f, frames[k]? = some bytes ∧ Frame.read? bytes = some f ∧
    ((f.type = .cursorMove ∨ f.type = .chat) ∧ m = owner.stamp f ∨
      f.type = .workspaceUpdate ∧ ∃ code outcome, m = Processor.codeMessage (owner.stamp f) code outcome)

theorem getElem?_concat_of_some {frames : List Bytes} {k : Nat} {bytes : Bytes} (h : frames[k]? = some bytes)
    (last : Bytes) : (frames ++ [last])[k]? = some bytes := by
  rw [List.getElem?_append_left (List.getElem?_eq_some_iff.1 h).1, h]

theorem EditAt.concat {owner : Client} {frames : List Bytes} {k : Nat} {m : Message} (h : EditAt owner frames k m)
    (last : Bytes) : EditAt owner (frames ++ [last]) k m := by
  obtain ⟨bytes, f, hk, hrest⟩ := h
  exact ⟨bytes, f, getElem?_concat_of_some hk last, hrest⟩

theorem Speaks.concat {owner : Client} {frames : List Bytes} {k : Nat} {m : Message} (h : Speaks owner frames k m)
    (last : Bytes) : Speaks owner (frames ++ [last]) k m := by
  obtain ⟨bytes, f, hk, hrest⟩ := h
  exact ⟨bytes, f, getElem?_concat_of_some hk last, hrest⟩

/-- The code of an edit is all that comes of processing it. -/
theorem EditAt.speaks {owner : Client} {frames : List Bytes} {k : Nat} {m m' : Message}
    (h : EditAt owner frames k m) {p : Processor σ} {cache : Cache} {store : σ}
    (hprocess : (p.process cache store m).1 = .ok m') : Speaks owner frames k m' := by
  obtain ⟨bytes, f, hk, hf, ht, rfl⟩ := h
  refine ⟨bytes, f, hk, hf, .inr ⟨ht, ?_⟩⟩
  rcases p.process_cases cache store ht (owner.document_stamp f) with ⟨code, -, -, hok⟩ | ⟨e, herror, -⟩
  · rw [hok] at hprocess
    exact ⟨code, _, (Except.ok.inj hprocess).symm⟩
  · rw [herror] at hprocess
    cases hprocess

/-! ## Keeping the ledger -/

/-- The desk belongs to the client. -/
structure OwnedBy (owner c : Client) : Prop where
  project : c.project = owner.project
  user : c.user = owner.user
  username : c.username = owner.username

theorem OwnedBy.stamp {owner c : Client} (h : OwnedBy owner c) (f : Frame) : c.stamp f = owner.stamp f := by
  unfold Client.stamp Client.message
  rw [h.project, h.user, h.username]

theorem OwnedBy.desk {owner c : Client} (h : OwnedBy owner c) (a : Act σ) : OwnedBy owner (a.desk c) := by
  cases a with
  | read bytes =>
    show OwnedBy owner (c.after (c.answer bytes))
    cases c.answer bytes <;> exact ⟨h.project, h.user, h.username⟩
  | take =>
    show OwnedBy owner c.withNext
    unfold Client.withNext
    split <;> exact ⟨h.project, h.user, h.username⟩
  | stop => exact ⟨h.project, h.user, h.username⟩
  | finish => exact ⟨h.project, h.user, h.username⟩
  | meanwhile s => exact h

/-- The ledger agrees with the desk. -/
structure Agrees (owner : Client) (l : Ledger) (c : Client) : Prop where
  owned : OwnedBy owner c
  /-- Every frame is in one place. -/
  places : l.places.Perm (List.range l.frames.length)
  waiting : List.Forall₂ (EditAt owner l.frames) l.waiting c.work
  inHand : List.Forall₂ (EditAt owner l.frames) l.inHand.toList c.current.toList
  speaks : ∀ k fate m, (k, fate) ∈ l.done → fate.posted? = some m → Speaks owner l.frames k m

theorem places_settle (l : Ledger) (k : Nat) (fate : Fate) : (l.settle k fate).places.Perm (k :: l.places) := by
  have hplaces : (l.settle k fate).places = l.done.map (·.1) ++ k :: (l.inHand.toList ++ l.waiting) := by
    simp [places, settle]
  have hbefore : l.places = l.done.map (·.1) ++ (l.inHand.toList ++ l.waiting) := List.append_assoc ..
  rw [hplaces, hbefore]
  exact List.perm_middle

theorem posted_settle (l : Ledger) (k : Nat) (fate : Fate) :
    (l.settle k fate).posted = l.posted ++ fate.posted?.toList := by
  unfold posted settle
  rw [List.filterMap_append, List.filterMap_cons]
  cases fate.posted? <;> rfl

theorem perm_range_succ {ks : List Nat} {n : Nat} (h : ks.Perm (List.range n)) : (n :: ks).Perm (List.range (n + 1)) := by
  rw [List.range_succ]
  exact (h.cons n).trans (List.perm_append_singleton n (List.range n)).symm

namespace Agrees

variable {owner c : Client} {l : Ledger}

theorem start (hwork : c.work = []) (hcurrent : c.current = none) : Agrees c {} c where
  owned := ⟨rfl, rfl, rfl⟩
  places := .refl _
  waiting := by rw [hwork]; exact .nil
  inHand := by rw [hcurrent]; exact .nil
  speaks := by simp

/-- What a further frame leaves of what is known of the others. -/
theorem speaks_settle (h : Agrees owner l c) {frames : List Bytes} {k : Nat} {fate : Fate}
    (hframes : ∀ k m, Speaks owner l.frames k m → Speaks owner frames k m)
    (hfate : ∀ m, fate.posted? = some m → Speaks owner frames k m) :
    ∀ k' fate' m, (k', fate') ∈ l.done ++ [(k, fate)] → fate'.posted? = some m → Speaks owner frames k' m := by
  intro k' fate' m hmem hposted
  rcases List.mem_append.1 hmem with hmem | hmem
  · exact hframes k' m (h.speaks k' fate' m hmem hposted)
  · obtain ⟨rfl, rfl⟩ := Prod.mk.inj (List.mem_singleton.1 hmem)
    exact hfate m hposted

theorem read (h : Agrees owner l c) (bytes : Bytes) :
    Agrees owner (l.read bytes (c.answer bytes)) (c.after (c.answer bytes)) := by
  have howned := h.owned.desk (.read bytes : Act Unit)
  have hwaiting : List.Forall₂ (EditAt owner (l.frames ++ [bytes])) l.waiting c.work :=
    h.waiting.imp fun _ _ hedit => hedit.concat bytes
  have hinHand : List.Forall₂ (EditAt owner (l.frames ++ [bytes])) l.inHand.toList c.current.toList :=
    h.inHand.imp fun _ _ hedit => hedit.concat bytes
  have hspeaks : ∀ k m, Speaks owner l.frames k m → Speaks owner (l.frames ++ [bytes]) k m :=
    fun _ _ hspeaks => hspeaks.concat bytes
  have hlast : (l.frames ++ [bytes])[l.frames.length]? = some bytes := List.getElem?_concat_length
  have hplaces : ∀ fate, ((l.hear bytes).settle l.frames.length fate).places.Perm
      (List.range (l.frames ++ [bytes]).length) := by
    intro fate
    rw [List.length_append]
    exact (places_settle _ _ _).trans (perm_range_succ h.places)
  have hdesk : Act.desk (.read bytes : Act Unit) c = c.after (c.answer bytes) := rfl
  rw [hdesk] at howned
  -- An edit is put behind those that wait; with any other frame the reader is done at once.
  cases hanswer : c.answer bytes with
  | queue m =>
    obtain ⟨f, hf, ht, hm⟩ := Client.edit_of_answer hanswer
    rw [hanswer] at howned
    have hqueued : Ledger.places { l.hear bytes with waiting := l.waiting ++ [l.frames.length] } =
        l.places ++ [l.frames.length] := (List.append_assoc ..).symm
    refine ⟨howned, ?_, ?_, hinHand, fun k fate m hmem hposted => hspeaks k m (h.speaks k fate m hmem hposted)⟩
    · show (Ledger.places { l.hear bytes with waiting := l.waiting ++ [l.frames.length] }).Perm
        (List.range (l.frames ++ [bytes]).length)
      rw [hqueued, List.length_append]
      exact (List.perm_append_singleton _ _).trans (perm_range_succ h.places)
    · exact List.rel_append hwaiting (.cons ⟨bytes, f, hlast, hf, ht, hm.trans (h.owned.stamp f)⟩ .nil)
  | post m =>
    obtain ⟨f, hf, ht, hm⟩ := Client.relay_of_answer hanswer
    rw [hanswer] at howned
    refine ⟨howned, hplaces _, hwaiting, hinHand, h.speaks_settle hspeaks fun m' hposted => ?_⟩
    obtain rfl := Option.some.inj hposted
    exact ⟨bytes, f, hlast, hf, .inl ⟨ht, hm.trans (h.owned.stamp f)⟩⟩
  | tell m =>
    rw [hanswer] at howned
    exact ⟨howned, hplaces _, hwaiting, hinHand, h.speaks_settle hspeaks fun m' hposted => nomatch hposted⟩

theorem take (h : Agrees owner l c) : Agrees owner l.take c.withNext := by
  have howned : OwnedBy owner c.withNext := h.owned.desk (.take : Act Unit)
  obtain ⟨frames, waiting, inHand, done⟩ := l
  obtain ⟨-, hplaces, hwaiting, hinHand, hspeaks⟩ := h
  unfold Client.withNext Ledger.take at *
  -- The ledger has an edit in hand when the desk has, and as many that wait: all other cases are absurd.
  cases hcurrent : c.current with
  | some m =>
    rw [hcurrent] at hinHand howned
    cases inHand with
    | none => cases hinHand
    | some k => exact ⟨howned, hplaces, hwaiting, by rw [hcurrent]; exact hinHand, hspeaks⟩
  | none =>
    rw [hcurrent] at hinHand howned
    cases inHand with
    | some k => cases hinHand
    | none =>
      cases hwork : c.work with
      | nil =>
        rw [hwork] at hwaiting howned
        cases hwaiting
        exact ⟨howned, hplaces, by rw [hwork]; exact .nil, by rw [hcurrent]; exact .nil, hspeaks⟩
      | cons m rest =>
        rw [hwork] at hwaiting howned
        cases hwaiting with
        | @cons k _ ks _ hedit hrest =>
          refine ⟨howned, ?_, hrest, .cons hedit .nil, hspeaks⟩
          simpa [Ledger.places] using hplaces

/-- The edit that is ended is the one in hand, and only its code can come of it. -/
theorem finish (h : Agrees owner l c) {m : Message} (hm : c.current = some m) {fate : Fate}
    (hfate : ∀ k m', EditAt owner l.frames k m → fate.posted? = some m' → Speaks owner l.frames k m') :
    Agrees owner (l.finish fate) { c with current := none } ∧
      (l.finish fate).posted = l.posted ++ fate.posted?.toList := by
  have howned : OwnedBy owner { c with current := none } := h.owned.desk (.finish : Act Unit)
  have hinHand := h.inHand
  rw [hm] at hinHand
  unfold Ledger.finish
  cases hk : l.inHand with
  | none =>
    rw [hk] at hinHand
    cases hinHand
  | some k =>
    rw [hk] at hinHand
    obtain ⟨hedit, -⟩ := List.forall₂_cons.1 hinHand
    refine ⟨⟨howned, ?_, h.waiting, .nil, h.speaks_settle (fun _ _ hspeaks => hspeaks) fun m' => hfate k m' hedit⟩, ?_⟩
    · refine (places_settle _ _ _).trans (List.Perm.trans ?_ h.places)
      have hbefore : l.places = l.done.map (·.1) ++ k :: l.waiting := by simp [Ledger.places, hk]
      have hbetween : Ledger.places { l with inHand := none } = l.done.map (·.1) ++ l.waiting := by
        simp [Ledger.places]
      rw [hbefore, hbetween]
      exact List.perm_middle.symm
    · exact posted_settle _ _ _

end Agrees

theorem posted_read (l : Ledger) (bytes : Bytes) (did : Move) :
    (l.read bytes did).posted = l.posted ++ did.posted?.toList := by
  cases did with
  | queue m => exact (List.append_nil _).symm
  | post m => exact posted_settle (l.hear bytes) _ _
  | tell m => exact posted_settle (l.hear bytes) _ _

theorem posted_take (l : Ledger) : l.take.posted = l.posted := by
  unfold take
  split <;> rfl

end Ledger

/-! ## What an act does -/

theorem ok_of_toOption {ε α : Type} {x : Except ε α} {a : α} (h : x.toOption = some a) : x = .ok a := by
  cases x with
  | error e => cases h
  | ok b => exact congrArg _ (Option.some.inj h)

section
variable {p : Processor σ} {n : Nat} {s : Sessions σ} {owner c : Client} {l : Ledger}

open Ledger

/-- What the worker ends, and what it puts in the queue of the hub. -/
theorem Sessions.queue_finishWork {d : Client} (hd : s.hub.clients[n]? = some d) {m : Message}
    (hm : d.current = some m) : (s.finishWork p n).hub.queue = s.hub.queue ++
      (if d.processes then (p.process s.cache s.store m).1.toOption else none).toList := by
  cases hprocesses : d.processes with
  | true =>
    rw [finishWork_eq hd hm hprocesses, Hub.queue_perform]
    cases (p.process s.cache s.store m).1 <;> rfl
  | false =>
    simp only [finishWork, hd, hm, hprocesses, Bool.false_eq_true, if_false]
    exact (List.append_nil _).symm

/-- The worker ends the edit in hand, if there is one. -/
theorem Ledger.Agrees.next_finish {d : Client} (h : Agrees owner l d.desk) (hd : s.hub.clients[n]? = some d) :
    Agrees owner (l.next p s d.desk .finish) { d.desk with current := none } ∧
      ∃ new, (l.next p s d.desk .finish).posted = l.posted ++ new ∧
        (s.finishWork p n).hub.queue = s.hub.queue ++ new := by
  have hcurrent : d.desk.current = d.current := rfl
  cases hm : d.current with
  | none =>
    have hidle : ({ d.desk with current := none } : Client) = d.desk := by
      rw [← hm]
      rfl
    have hkept : l.next p s d.desk .finish = l := by simp [next, hcurrent, hm]
    have hqueue : (s.finishWork p n).hub.queue = s.hub.queue := by simp [Sessions.finishWork, hd, hm]
    rw [hidle, hkept]
    exact ⟨h, [], (List.append_nil _).symm, hqueue.trans (List.append_nil _).symm⟩
  | some m =>
    let fate : Fate := if d.processes then .processed (p.process s.cache s.store m).1 else .dropped
    have hfate : fate.posted? = if d.processes then (p.process s.cache s.store m).1.toOption else none := by
      show (if d.processes then Fate.processed _ else Fate.dropped).posted? = _
      split <;> rfl
    have hnext : l.next p s d.desk .finish = l.finish fate := by
      simp only [next, hcurrent, hm]
      rfl
    have hspeaks : ∀ k m', EditAt owner l.frames k m → fate.posted? = some m' → Speaks owner l.frames k m' := by
      intro k m' hedit hposted
      rw [hfate] at hposted
      split at hposted
      · exact hedit.speaks (ok_of_toOption hposted)
      · cases hposted
    obtain ⟨hagrees, hposted⟩ := h.finish (hcurrent.trans hm) hspeaks
    rw [hnext]
    refine ⟨hagrees, _, hposted, ?_⟩
    rw [hfate]
    exact Sessions.queue_finishWork hd hm

/-- The ledger goes on agreeing with the desk, and what it says is posted anew is what the act puts in the
queue of the hub. -/
theorem Ledger.Agrees.act (h : Agrees owner l c) (hc : s.hub.desk? n = some c) (a : Act σ) (ha : a.Allowed n s) :
    Agrees owner (l.next p s c a) (a.desk c) ∧
      ((∀ s', a ≠ .meanwhile s') → ∃ new, (l.next p s c a).posted = l.posted ++ new ∧
        (a.run p n s).hub.queue = s.hub.queue ++ new) := by
  obtain ⟨d, hd, rfl⟩ := Hub.client_of_desk? hc
  cases a with
  | read bytes =>
    refine ⟨h.read bytes, fun _ => ⟨_, posted_read l bytes _, ?_⟩⟩
    show (s.hub.receive n bytes).queue = _
    rw [Hub.receive_eq hd (ha d hd), Hub.queue_perform]
    rfl
  | stop =>
    have howned := h.owned.desk (.stop : Act σ)
    refine ⟨⟨howned, h.places, h.waiting, h.inHand, h.speaks⟩, fun _ => ⟨[], (List.append_nil _).symm, ?_⟩⟩
    exact (s.hub.queue_closeWork n).trans (List.append_nil _).symm
  | take =>
    exact ⟨h.take, fun _ => ⟨[], (posted_take l).trans (List.append_nil _).symm, (List.append_nil _).symm⟩⟩
  | finish =>
    obtain ⟨hagrees, hposted⟩ := h.next_finish hd
    exact ⟨hagrees, fun _ => hposted⟩
  | meanwhile s' => exact ⟨h, fun hno => absurd rfl (hno s')⟩

end

/-! ## Every order of acts -/

namespace Ledger

variable {p : Processor σ} {n : Nat} {s : Sessions σ} {owner c : Client} {l : Ledger}

theorem Kept.agrees (h : Kept p n owner s l) : ∃ c, s.hub.desk? n = some c ∧ Agrees owner l c := by
  induction h with
  | start hc hwork hcurrent => exact ⟨owner, hc, .start hwork hcurrent⟩
  | @act s l c h hc a ha ih =>
    obtain ⟨d, hd, hagrees⟩ := ih
    obtain rfl := Option.some.inj (hd.symm.trans hc)
    refine ⟨a.desk d, ?_, (hagrees.act hc a ha).1⟩
    rw [a.desk?_run p ha, hc, Option.map_some]

/-- What a client's frames cannot do. -/
structure Unforged (p : Processor σ) (n : Nat) (owner : Client) (s : Sessions σ) (l : Ledger) : Prop where
  /-- Every frame is in one place of the ledger. -/
  placed : l.places.Perm (List.range l.frames.length)
  /-- A message that came of a frame is what the frame says, or the code of its edit. -/
  spoken : ∀ k fate m, (k, fate) ∈ l.done → fate.posted? = some m → Speaks owner l.frames k m
  /-- A message that came of a frame is in the name of the client and of a type that is for everybody. -/
  signed : ∀ k fate m, (k, fate) ∈ l.done → fate.posted? = some m → m.project = owner.project ∧
    m.user = owner.user ∧ m.username = owner.username ∧
      (m.type = .cursorMove ∨ m.type = .chat ∨ m.type = .codeGenerated)
  /-- Nothing came of a frame that cannot be read or is of a type that is not accepted. -/
  refused : ∀ k bytes, l.frames[k]? = some bytes →
    (∀ f, Frame.read? bytes = some f → f.type.isAllowed = false) →
      ∀ fate, (k, fate) ∈ l.done → fate.posted? = none
  /-- Nothing came of an edit that failed. -/
  failed : ∀ k e, (k, .processed (.error e)) ∈ l.done → ∀ fate, (k, fate) ∈ l.done → fate.posted? = none
  /-- What the next act puts in the queue of the hub is what is written down. -/
  written : ∀ c, s.hub.desk? n = some c → ∀ a : Act σ, a.Allowed n s → (∀ s', a ≠ .meanwhile s') →
    ∃ new, (l.next p s c a).posted = l.posted ++ new ∧ (a.run p n s).hub.queue = s.hub.queue ++ new

theorem Speaks.signed {owner : Client} {frames : List Bytes} {k : Nat} {m : Message} (h : Speaks owner frames k m) :
    m.project = owner.project ∧ m.user = owner.user ∧ m.username = owner.username ∧
      (m.type = .cursorMove ∨ m.type = .chat ∨ m.type = .codeGenerated) := by
  obtain ⟨bytes, f, -, -, ⟨ht, rfl⟩ | ⟨-, code, outcome, rfl⟩⟩ := h
  · exact ⟨rfl, rfl, rfl, ht.imp id .inl⟩
  · exact ⟨rfl, rfl, rfl, .inr (.inr rfl)⟩

theorem Speaks.isAllowed {owner : Client} {frames : List Bytes} {k : Nat} {m : Message} (h : Speaks owner frames k m) :
    ∃ bytes f, frames[k]? = some bytes ∧ Frame.read? bytes = some f ∧ f.type.isAllowed = true := by
  obtain ⟨bytes, f, hk, hf, ⟨ht | ht, -⟩ | ⟨ht, -⟩⟩ := h
  · exact ⟨bytes, f, hk, hf, by rw [ht]; rfl⟩
  · exact ⟨bytes, f, hk, hf, by rw [ht]; rfl⟩
  · exact ⟨bytes, f, hk, hf, by rw [ht]; rfl⟩

/-- A frame has one fate. -/
theorem Agrees.fate_unique (h : Agrees owner l c) {k : Nat} {fate fate' : Fate} (hmem : (k, fate) ∈ l.done)
    (hmem' : (k, fate') ∈ l.done) : fate = fate' := by
  have hnodup : l.places.Nodup := h.places.nodup_iff.2 List.nodup_range
  have hdone : (l.done.map (·.1)).Nodup := (List.nodup_append.1 (List.nodup_append.1 hnodup).1).1
  exact congrArg Prod.snd (List.inj_on_of_nodup_map hdone hmem hmem' rfl)

/-- Whatever frames come, and however the reader, the worker and all others take turns: what a frame of a client
puts in the queue of the hub is in the name of the client, and of a type that is meant for everybody; a frame
that is refused and an edit that fails put nothing there. -/
theorem frames_unforged (h : Kept p n owner s l) : Unforged p n owner s l := by
  obtain ⟨d, hd, hagrees⟩ := h.agrees
  refine ⟨hagrees.places, hagrees.speaks,
    fun k fate m hmem hposted => (hagrees.speaks k fate m hmem hposted).signed, ?_, ?_, ?_⟩
  · intro k bytes hk hno fate hmem
    cases hposted : fate.posted? with
    | none => rfl
    | some m =>
      obtain ⟨bytes', f, hk', hf, hallowed⟩ := (hagrees.speaks k fate m hmem hposted).isAllowed
      obtain rfl := Option.some.inj (hk.symm.trans hk')
      rw [hno f hf] at hallowed
      cases hallowed
  · intro k e hfailed fate hmem
    rw [← hagrees.fate_unique hfailed hmem]
    rfl
  · intro c hc a ha
    obtain rfl := Option.some.inj (hd.symm.trans hc)
    exact (hagrees.act hc a ha).2

/-- A frame that says something in the name of another user, in another room. -/
def forgedBytes : Bytes :=
  Text.bytesOf "\x7b\"type\":\"chat.message\",\"projectId\":\"q\",\"userId\":\"eve\",\"username\":\"Eve\"\x7d"

/-- A frame that tells of a user who comes. -/
def joiningBytes : Bytes := Text.bytesOf "\x7b\"type\":\"user.join\",\"userId\":\"eve\"\x7d"

theorem answer_forged : writer.answer forgedBytes = .post (writer.stamp ⟨.chat, none⟩) := by
  have hread : Frame.read? forgedBytes = some ⟨.chat, none⟩ := by decide +kernel
  rw [Client.answer, hread]
  rfl

theorem read_joining : Frame.read? joiningBytes = some ⟨.userJoin, none⟩ := by decide +kernel

theorem answer_joining : writer.answer joiningBytes = .tell (writer.unsupported .userJoin) := by
  rw [Client.answer, read_joining]
  rfl

/-- What the first of them says. -/
def said : Message := writer.stamp ⟨.chat, none⟩

/-- The ledger of both frames. -/
def forging : Ledger where
  frames := [forgedBytes, joiningBytes]
  done := [(0, .relayed said), (1, .refused (writer.unsupported .userJoin))]

theorem kept_forging : ∃ s, Kept recorder 0 writer s forging := by
  have hopen : ∀ c : Client, [writer][0]? = some c → c.workClosed = false := by
    rintro c ⟨⟩
    rfl
  have hdesk : ∀ queue, ({ clients := [writer], queue } : Hub).desk? 0 = some writer := fun _ => rfl
  have hstart : Kept recorder 0 writer { hub := { clients := [writer] }, store := [] } {} := .start rfl rfl rfl
  have hfirst : Kept recorder 0 writer { hub := { clients := [writer], queue := [said] }, store := [] }
      { frames := [forgedBytes], done := [(0, .relayed said)] } := by
    have hact := hstart.act (hdesk []) (.read forgedBytes) hopen
    rw [Act.run, Sessions.onHub, Hub.receive_eq (c := writer) rfl rfl] at hact
    simp only [next, answer_forged] at hact
    exact hact
  have hsecond := hfirst.act (hdesk [said]) (.read joiningBytes) hopen
  simp only [next, answer_joining] at hsecond
  exact ⟨_, hsecond⟩

/-- What is said is said in the client's own name, and nobody seems to come. -/
theorem forging_signed : ∃ s, Kept recorder 0 writer s forging ∧
    (∀ m ∈ forging.posted, m.user = "ada" ∧ m.username = "Ada" ∧ m.project = writer.project) ∧
      ∀ fate, (1, fate) ∈ forging.done → fate.posted? = none := by
  obtain ⟨s, hkept⟩ := kept_forging
  have hunforged := frames_unforged hkept
  refine ⟨s, hkept, fun m hm => ?_, hunforged.refused 1 joiningBytes rfl fun f hf => ?_⟩
  · obtain ⟨⟨k, fate⟩, hmem, hposted⟩ := List.mem_filterMap.1 hm
    obtain ⟨hproject, huser, husername, -⟩ := hunforged.signed k fate m hmem hposted
    exact ⟨huser, husername, hproject⟩
  · rw [read_joining] at hf
    obtain rfl := Option.some.inj hf
    rfl

end Ledger

/-! ## Every run of the sessions -/

/-- Wherever any order of steps leads, the ledger of every client has been kept. -/
theorem Reachable.kept {p : Processor σ} {w : World σ} (h : Reachable p w) {n : Nat} {c : Client}
    (hc : w.hub.desk? n = some c) : ∃ owner l, Ledger.Kept p n owner w.sessions l ∧ Ledger.OwnedBy owner c := by
  refine h.at_desk (motive := fun s c => ∃ owner l, Ledger.Kept p n owner s l ∧ Ledger.OwnedBy owner c)
    (fun s c hc hwork hcurrent => ⟨c, {}, .start hc hwork hcurrent, rfl, rfl, rfl⟩)
    (fun s c a hc ha hbefore => ?_) hc
  obtain ⟨owner, l, hkept, howned⟩ := hbefore
  exact ⟨owner, _, hkept.act hc a ha, howned.desk a⟩

end Blockwright.Live
