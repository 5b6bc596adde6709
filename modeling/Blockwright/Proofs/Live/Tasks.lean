import Blockwright.Live.Hub
import Blockwright.Proofs.Live.Desk
import Mathlib.Data.List.Nodup
/-!
# What the hub does to rooms and queues

How a room is found again after rooms have been written, dropped or tidied up, and who stays in a
room when a client is taken out by its id. An event of the hub changes the rooms and then uses the queues
of clients one at a time. Here an event is split into that change and the list of its tasks, so that other
parties can be let in between two tasks. `register_eq`, `unregister_eq` and `broadcastNext_eq` say that the
tasks of an event, done in a row, are the event.

Of the tasks of an event, those for one client put messages in its queue, while there is room, or close
it. The rest of the client stays as it is.
-/

/-! ## Rooms -/

namespace Blockwright.Live.Hub

theorem faults_putRoom (h : Hub) (r : Room) : (h.putRoom r).faults = h.faults := by
  unfold putRoom
  split <;> rfl

theorem clients_putRoom (h : Hub) (r : Room) : (h.putRoom r).clients = h.clients := by
  unfold putRoom
  split <;> rfl

theorem room?_putRoom (h : Hub) (r : Room) (project : String) :
    (h.putRoom r).room? project = if project = r.project then some r else h.room? project := by
  have hmap (l : List Room) : (l.map fun old => if old.project = r.project then r else old).find?
      (fun old => old.project = project) =
      if project = r.project then (l.find? fun old => old.project = project).map fun _ => r
      else l.find? fun old => old.project = project := by
    induction l with
    | nil => simp
    | cons old l ih =>
      rw [List.map_cons, List.find?_cons, List.find?_cons, ih]
      by_cases hold : old.project = r.project
      · by_cases hp : project = r.project
        · simp [hold, hp]
        · simp [hold, hp, Ne.symm hp]
      · by_cases hp : project = r.project
        · simp [hold, hp]
        · simp [hold, hp]
  unfold putRoom
  by_cases hp : project = r.project
  · subst hp
    cases hr : h.room? r.project with
    | none =>
      have hn : h.rooms.find? (fun old => old.project = r.project) = none := hr
      simp [room?, List.find?_append, hn]
    | some old =>
      have hs : h.rooms.find? (fun old => old.project = r.project) = some old := hr
      simp [room?, hmap, hs]
  · split
    · simp [room?, hmap, hp]
    · have hne : ¬ r.project = project := fun he => hp he.symm
      simp [room?, List.find?_append, hne]

theorem mem_putRoom {h : Hub} {r r' : Room} (hr' : r' ∈ (h.putRoom r).rooms) :
    r' = r ∨ r' ∈ h.rooms ∧ r'.project ≠ r.project := by
  unfold putRoom at hr'
  split at hr'
  · simp only [List.mem_map] at hr'
    grind
  · rename_i hnone
    simp only [List.mem_append, List.mem_singleton] at hr'
    rcases hr' with hm | rfl
    · refine .inr ⟨hm, fun he => hnone ?_⟩
      rw [room?, List.find?_isSome]
      exact ⟨r', hm, by simp [he]⟩
    · exact .inl rfl

theorem mem_of_room? {h : Hub} {project : String} {r : Room} (hr : h.room? project = some r) :
    r ∈ h.rooms ∧ r.project = project :=
  ⟨List.mem_of_find?_eq_some hr, by simpa using List.find?_some hr⟩

theorem room?_dropRoom (h : Hub) (gone project : String) (hne : project ≠ gone) :
    (h.dropRoom gone).room? project = h.room? project := by
  rw [room?, room?, dropRoom, List.find?_filter]
  congr 1
  funext r
  by_cases hr : r.project = project <;> simp [hr, hne]

theorem room?_dropRoom_self (h : Hub) (project : String) : (h.dropRoom project).room? project = none := by
  simp [room?, dropRoom]

/-- The room is written, unless nobody is in it: then it goes. -/
def keepRoom (h : Hub) (r : Room) : Hub :=
  if r.members.isEmpty then (h.putRoom r).dropRoom r.project else h.putRoom r

theorem faults_keepRoom (h : Hub) (r : Room) : (h.keepRoom r).faults = h.faults := by
  unfold keepRoom
  split <;> exact faults_putRoom ..

theorem clients_keepRoom (h : Hub) (r : Room) : (h.keepRoom r).clients = h.clients := by
  unfold keepRoom
  split <;> exact clients_putRoom ..

theorem room?_keepRoom (h : Hub) (r : Room) (project : String) :
    (h.keepRoom r).room? project =
      if project = r.project then (if r.members.isEmpty then none else some r) else h.room? project := by
  unfold keepRoom
  by_cases hp : project = r.project
  · subst hp
    split
    · rw [room?_dropRoom_self, if_pos rfl]
    · rw [room?_putRoom, if_pos rfl]
  · split
    · rw [room?_dropRoom _ _ _ hp, room?_putRoom, if_neg hp]
    · rw [room?_putRoom, if_neg hp]

theorem mem_keepRoom {h : Hub} {r r' : Room} (hr' : r' ∈ (h.keepRoom r).rooms) :
    r' = r ∧ r.members ≠ [] ∨ r' ∈ h.rooms ∧ r'.project ≠ r.project := by
  unfold keepRoom at hr'
  split at hr'
  · obtain ⟨hput, hne⟩ := List.mem_filter.1 hr'
    have hne : r'.project ≠ r.project := by simpa using hne
    exact .inr ((mem_putRoom hput).resolve_left fun heq => hne (congrArg Room.project heq))
  · next hsome => exact (mem_putRoom hr').imp_left fun heq => ⟨heq, fun hnil => hsome (by rw [hnil]; rfl)⟩

theorem room?_cleanup {h : Hub} {project : String} {r : Room} (hr : h.room? project = some r)
    (hm : r.members ≠ []) : h.cleanup.room? project = some r := by
  rw [room?, List.find?_eq_some_iff_append] at hr
  obtain ⟨hp, before, after, hsplit, hbefore⟩ := hr
  rw [room?, cleanup, hsplit, List.filter_append, List.filter_cons_of_pos (by simpa using hm),
    List.find?_eq_some_iff_append]
  exact ⟨hp, _, _, rfl, fun a ha => hbefore a (List.mem_filter.1 ha).1⟩

theorem hasId_eq {h : Hub} {n : Nat} {c : Client} (hc : h.clients[n]? = some c) (id : String) :
    h.hasId id n = decide (c.id = id) := by
  rw [hasId, hc]

/-- No two clients have one id. -/
def DistinctIds (h : Hub) : Prop :=
  ∀ (n k : Nat) (c d : Client), h.clients[n]? = some c → h.clients[k]? = some d → c.id = d.id → n = k

/-- Taking out those of a client's id takes out the client only. -/
theorem mem_filter_hasId {h : Hub} (hids : h.DistinctIds) {n k : Nat} {c d : Client} {members : List Nat}
    (hc : h.clients[n]? = some c) (hd : h.clients[k]? = some d) :
    k ∈ members.filter (fun k => !h.hasId c.id k) ↔ k ∈ members ∧ k ≠ n := by
  rw [List.mem_filter, hasId_eq hd, Bool.not_eq_true', decide_eq_false_iff_not]
  refine and_congr_right fun _ => ?_
  by_cases hk : k = n
  · subst hk
    rw [hc] at hd
    cases hd
    exact iff_of_false (fun hno => hno rfl) fun hno => hno rfl
  · exact iff_of_true (fun he => hk (hids k n d c hd hc he)) hk

end Blockwright.Live.Hub

namespace Blockwright.Live

/-- One use of the queue of a client. -/
inductive Task where
  | send (m : Message) (n : Nat)
  | close (n : Nat)

/-- Does a task. -/
def Task.perform (h : Hub) : Task → Hub
  | .send m n => h.send m n
  | .close n => h.closeOutbox n

/-- The client whose queue a task closes. -/
def Task.closes? : Task → Option Nat
  | .send _ _ => none
  | .close n => some n

theorem Task.closes_sends (m : Message) (members : List Nat) :
    (members.map (Task.send m)).filterMap Task.closes? = [] := by
  simp [List.filterMap_map, List.filterMap_eq_nil_iff, Task.closes?]

namespace Hub

/-- Does tasks one after the other. -/
def performAll (h : Hub) (tasks : List Task) : Hub := tasks.foldl Task.perform h

/-! ## Events -/

/-- Who is in the room of a project, but for the client of an id. -/
def othersIn (h : Hub) (project id : String) : List Nat :=
  (((h.room? project).map (·.members)).getD []).filter fun k => !h.hasId id k

/-- A client enters: it is put in its room, and then everybody there is told, and the client is
told who is there. -/
def startRegister (h : Hub) (n : Nat) : Hub × List Task :=
  match h.clients[n]? with
  | none => (h, [])
  | some c =>
    let members := h.othersIn c.project c.id ++ [n]
    (h.putRoom { project := c.project, members },
      members.map (.send (c.message .userJoin (.joined c.info))) ++
        [.send (systemMessage .userJoin c.project (.roster (usersOf (h.clientsOf members)))) n])

/-- A client leaves: it is taken from its room, which goes when it is empty, and then the others
are told, and the client's queue is closed. -/
def startUnregister (h : Hub) (n : Nat) : Hub × List Task :=
  match h.clients[n]? with
  | none => (h, [])
  | some c =>
    match h.room? c.project with
    | none => (h, [])
    | some r =>
      let rest := r.members.filter fun k => !h.hasId c.id k
      let left := rest.length < r.members.length
      let changed := if left then h.putRoom { r with members := rest } else h
      (if rest.isEmpty then changed.dropRoom c.project else changed,
        (if left then rest.map (.send (c.message .userLeave (.joined c.info))) else []) ++ [.close n])

/-- The oldest message that waits is handed to the room of its project. -/
def startBroadcast (h : Hub) : Hub × List Task :=
  match h.queue with
  | [] => (h, [])
  | m :: rest =>
    ({ h with queue := rest }, (((h.room? m.project).map (·.members)).getD []).map (.send m))

/-! ## Tasks in a row -/

theorem performAll_append (h : Hub) (ts us : List Task) : h.performAll (ts ++ us) = (h.performAll ts).performAll us :=
  List.foldl_append

theorem performAll_sends (h : Hub) (m : Message) (members : List Nat) :
    h.performAll (members.map (.send m)) = h.sendAll members m :=
  List.foldl_map

/-- Tasks neither read nor change the rooms. -/
theorem perform_rooms (h : Hub) (rooms : List Room) (t : Task) :
    t.perform { h with rooms } = { t.perform h with rooms } := by
  cases t with
  | send m n =>
    simp only [Task.perform, send]
    cases h.clients[n]? with
    | none => rfl
    | some c => dsimp only; split <;> rfl
  | close n =>
    simp only [Task.perform, closeOutbox]
    cases h.clients[n]? with
    | none => rfl
    | some c => dsimp only; split <;> rfl

theorem performAll_rooms (h : Hub) (rooms : List Room) (ts : List Task) :
    performAll { h with rooms } ts = { h.performAll ts with rooms } := by
  induction ts generalizing h with
  | nil => rfl
  | cons t ts ih =>
    calc performAll { h with rooms } (t :: ts)
        = performAll { t.perform h with rooms } ts := by rw [← perform_rooms]; rfl
      _ = { performAll (t.perform h) ts with rooms } := ih _

theorem rooms_performAll (h : Hub) (ts : List Task) : (h.performAll ts).rooms = h.rooms := by
  have he : h.performAll ts = { h.performAll ts with rooms := h.rooms } := performAll_rooms h h.rooms ts
  rw [he]

/-! ## Who is in a room

What others see of a client does not depend on the messages that wait for it. -/

/-- Adds a user to those seen, once. -/
def addUser (seen : List UserInfo) (u : UserInfo) : List UserInfo :=
  if seen.any fun v => v.user = u.user then seen else seen ++ [u]

theorem usersOf_eq (clients : List Client) :
    usersOf clients = ((clients.map Client.info).foldl addUser []).mergeSort fun a b => a.user ≤ b.user := by
  rw [usersOf, List.foldl_map]
  rfl

theorem map_info_clientsOf (h : Hub) (members : List Nat) :
    (h.clientsOf members).map Client.info = members.filterMap fun n => h.clients[n]?.map Client.info :=
  List.map_filterMap ..

theorem info_send (h : Hub) (m : Message) (n k : Nat) :
    (h.send m n).clients[k]?.map Client.info = h.clients[k]?.map Client.info := by
  unfold send
  cases hn : h.clients[n]? with
  | none => rfl
  | some c =>
    dsimp only
    split
    · rfl
    · rw [modify, List.getElem?_modify]
      cases h.clients[k]? with
      | none => rfl
      | some d =>
        by_cases hk : n = k
        · simp only [hk, if_true, Option.map_eq_map, Option.map_some, Client.receive]
          split <;> rfl
        · simp [hk]

theorem info_sendAll (h : Hub) (m : Message) (members : List Nat) (k : Nat) :
    (h.sendAll members m).clients[k]?.map Client.info = h.clients[k]?.map Client.info := by
  induction members generalizing h with
  | nil => rfl
  | cons n members ih => exact (ih (h.send m n)).trans (info_send h m n k)

theorem usersOf_sendAll (h : Hub) (m : Message) (told members : List Nat) :
    usersOf ((h.sendAll told m).clientsOf members) = usersOf (h.clientsOf members) := by
  rw [usersOf_eq, usersOf_eq, map_info_clientsOf, map_info_clientsOf]
  simp only [info_sendAll]

/-! ## What an event does before its tasks

The queues of clients are left to the tasks. -/

theorem clients_startRegister (h : Hub) (n : Nat) : (h.startRegister n).1.clients = h.clients := by
  unfold startRegister
  split
  · rfl
  · exact clients_putRoom ..

theorem clients_startUnregister (h : Hub) (n : Nat) : (h.startUnregister n).1.clients = h.clients := by
  unfold startUnregister
  split
  · rfl
  · split
    · rfl
    · dsimp only
      split <;> split <;> first | rfl | exact clients_putRoom ..

theorem clients_startBroadcast (h : Hub) : h.startBroadcast.1.clients = h.clients := by
  unfold startBroadcast
  split <;> rfl

/-- A client that is in the room of its project is taken from it, and the others there are told. -/
theorem startUnregister_of_member {h : Hub} {n : Nat} {c : Client} {r : Room} (hc : h.clients[n]? = some c)
    (hr : h.room? c.project = some r) (hn : n ∈ r.members) :
    h.startUnregister n =
      (h.keepRoom { r with members := r.members.filter fun k => !h.hasId c.id k },
        (r.members.filter fun k => !h.hasId c.id k).map (.send (c.message .userLeave (.joined c.info))) ++
          [Task.close n]) := by
  have hleft : (r.members.filter fun k => !h.hasId c.id k).length < r.members.length :=
    List.length_filter_lt_length_iff_exists.2 ⟨n, hn, by simp [hasId_eq hc]⟩
  simp only [startUnregister, hc, hr, hleft, if_true, keepRoom, (mem_of_room? hr).2]

/-! ## An event is its tasks -/

theorem register_eq (h : Hub) (n : Nat) : h.register n = (h.startRegister n).1.performAll (h.startRegister n).2 := by
  unfold register startRegister
  cases h.clients[n]? with
  | none => rfl
  | some c =>
    have hp (r : Room) (ns : List Nat) : (h.putRoom r).clientsOf ns = h.clientsOf ns := by
      rw [clientsOf, clientsOf, clients_putRoom]
    dsimp only
    rw [performAll_append, performAll_sends, usersOf_sendAll, hp]
    rfl

theorem unregister_eq (h : Hub) (n : Nat) :
    h.unregister n = (h.startUnregister n).1.performAll (h.startUnregister n).2 := by
  unfold unregister startUnregister
  cases h.clients[n]? with
  | none => rfl
  | some c =>
    dsimp only
    cases h.room? c.project with
    | none => rfl
    | some r =>
      dsimp only
      generalize r.members.filter (fun k => !h.hasId c.id k) = rest
      -- an empty room may as well go before the tasks are done
      have hdrop (h : Hub) (ts : List Task) : (h.performAll ts).dropRoom c.project = (h.dropRoom c.project).performAll ts := by
        rw [dropRoom, dropRoom, rooms_performAll]
        exact (performAll_rooms h _ ts).symm
      have htold : ∀ h' : Hub, (h'.sendAll rest (c.message .userLeave (.joined c.info))).closeOutbox n =
          h'.performAll (rest.map (.send (c.message .userLeave (.joined c.info))) ++ [Task.close n]) := by
        intro h'
        rw [performAll_append, performAll_sends]
        rfl
      by_cases hleft : rest.length < r.members.length
      · simp only [hleft, if_true, htold, hdrop]
        split <;> rfl
      · have hclose (h' : Hub) : h'.closeOutbox n = h'.performAll [.close n] := rfl
        simp only [hleft, if_false, List.nil_append, hclose, hdrop]
        split <;> rfl

theorem broadcastNext_eq (h : Hub) : h.broadcastNext = h.startBroadcast.1.performAll h.startBroadcast.2 := by
  unfold broadcastNext startBroadcast
  cases h.queue with
  | nil => rfl
  | cons m rest =>
    dsimp only
    have hroom : ({ h with queue := rest } : Hub).room? m.project = h.room? m.project := rfl
    rw [performAll_sends, broadcast, hroom]
    cases h.room? m.project <;> rfl

end Hub

/-! ## What reaches a client -/

/-- The message that a task has for a client. -/
def Task.messageFor? (n : Nat) : Task → Option Message
  | .send m k => if k = n then some m else none
  | .close _ => none

/-- The messages that tasks have for a client. -/
def messagesFor (n : Nat) (ts : List Task) : List Message := ts.filterMap (·.messageFor? n)

/-- Everybody is sent a message once. -/
theorem messagesFor_sends {members : List Nat} (hnodup : members.Nodup) (m : Message) (n : Nat) :
    messagesFor n (members.map (.send m)) = (if n ∈ members then some m else none).toList := by
  induction members with
  | nil => rfl
  | cons k rest ih =>
    obtain ⟨hk, hrest⟩ := List.nodup_cons.1 hnodup
    have ih := ih hrest
    rw [messagesFor] at ih ⊢
    by_cases hkn : k = n
    · subst hkn
      rw [if_neg hk] at ih
      rw [List.map_cons, List.filterMap_cons_some (b := m) (by simp [Task.messageFor?]), ih,
        if_pos List.mem_cons_self]
      rfl
    · rw [List.map_cons, List.filterMap_cons_none (by simp [Task.messageFor?, hkn]), ih]
      simp [Ne.symm hkn]

/-- Of several messages, a client gets those that there is room for. -/
theorem Client.foldl_receive (c : Client) (ms : List Message) :
    ms.foldl Client.receive c = { c with outbox := c.outbox ++ ms.take (outboxCapacity - c.outbox.length) } := by
  induction ms generalizing c with
  | nil => simp
  | cons m ms ih =>
    rw [List.foldl_cons, ih]
    unfold receive
    split
    · next hroom =>
      obtain ⟨k, hk⟩ : ∃ k, outboxCapacity - c.outbox.length = k + 1 := ⟨outboxCapacity - c.outbox.length - 1, by omega⟩
      have hrest : outboxCapacity - (c.outbox ++ [m]).length = k := by rw [List.length_append, List.length_singleton]; omega
      simp only [hrest, hk, List.take_succ_cons, List.append_assoc, List.singleton_append]
    · next hfull => simp [Nat.sub_eq_zero_of_le (Nat.le_of_not_lt hfull)]

namespace Hub

theorem client_closeOutbox {h : Hub} {n : Nat} {c : Client} (hc : h.clients[n]? = some c) :
    (h.closeOutbox n).clients[n]? = some { c with outboxClosed := true } := by
  unfold closeOutbox
  rw [hc]
  dsimp only
  split
  · next hclosed =>
    show h.clients[n]? = _
    rw [hc, ← hclosed]
  · rw [modify, List.getElem?_modify_eq, hc]
    rfl

theorem client_closeOutbox_of_ne {h : Hub} {k n : Nat} (hne : k ≠ n) :
    (h.closeOutbox k).clients[n]? = h.clients[n]? := by
  unfold closeOutbox
  split
  · split
    · rfl
    · simp [modify, hne]
  · rfl

theorem client_send {h : Hub} {n : Nat} {c : Client} (hc : h.clients[n]? = some c) (hopen : c.outboxClosed = false)
    (m : Message) : (h.send m n).clients[n]? = some (c.receive m) := by
  rw [send, hc]
  simp only [hopen, Bool.false_eq_true, if_false, modify, List.getElem?_modify_eq, hc]
  rfl

theorem client_send_of_ne {h : Hub} {k n : Nat} (hne : k ≠ n) (m : Message) :
    (h.send m k).clients[n]? = h.clients[n]? := by
  unfold send
  split
  · split
    · rfl
    · simp [modify, hne]
  · rfl

/-- A client whose queue stays open gets what there is room for. -/
theorem client_performAll {h : Hub} {n : Nat} {c : Client} {ts : List Task} (hc : h.clients[n]? = some c)
    (hopen : c.outboxClosed = false) (hclose : .close n ∉ ts) :
    (h.performAll ts).clients[n]? = some ((messagesFor n ts).foldl Client.receive c) := by
  induction ts generalizing h c with
  | nil => exact hc
  | cons t ts ih =>
    have hrest : .close n ∉ ts := fun hm => hclose (List.mem_cons_of_mem t hm)
    show ((t.perform h).performAll ts).clients[n]? = _
    cases t with
    | send m k =>
      by_cases hk : k = n
      · subst hk
        have hreceive : (c.receive m).outboxClosed = false := by
          unfold Client.receive
          split <;> exact hopen
        refine (ih (client_send hc hopen m) hreceive hrest).trans ?_
        simp [messagesFor, Task.messageFor?]
      · refine (ih ((client_send_of_ne hk m).trans hc) hopen hrest).trans ?_
        simp [messagesFor, Task.messageFor?, hk]
    | close k =>
      have hk : k ≠ n := fun heq => hclose (heq ▸ List.mem_cons_self)
      exact ih ((client_closeOutbox_of_ne hk).trans hc) hopen hrest

/-- A client that there is no message for stays as it is, but its queue may be closed. -/
theorem client_performAll_quiet {h : Hub} {n : Nat} {c : Client} {ts : List Task} (hc : h.clients[n]? = some c)
    (hquiet : messagesFor n ts = []) :
    (h.performAll ts).clients[n]? =
      some { c with outboxClosed := c.outboxClosed || decide (n ∈ ts.filterMap Task.closes?) } := by
  induction ts generalizing h c with
  | nil => simpa [performAll] using hc
  | cons t ts ih =>
    show ((t.perform h).performAll ts).clients[n]? = _
    cases t with
    | send m k =>
      have hk : k ≠ n := by
        rintro rfl
        simp [messagesFor, Task.messageFor?] at hquiet
      have hrest : messagesFor n ts = [] := by simpa [messagesFor, Task.messageFor?, hk] using hquiet
      exact ih ((client_send_of_ne hk m).trans hc) hrest
    | close k =>
      have hrest : messagesFor n ts = [] := by simpa [messagesFor, Task.messageFor?] using hquiet
      by_cases hk : k = n
      · subst hk
        refine (ih (client_closeOutbox hc) hrest).trans ?_
        simp [Task.closes?]
      · refine (ih ((client_closeOutbox_of_ne hk).trans hc) hrest).trans ?_
        simp [Task.closes?, Ne.symm hk]

theorem desk?_performAll (h : Hub) (ts : List Task) (n : Nat) : (h.performAll ts).desk? n = h.desk? n := by
  induction ts generalizing h with
  | nil => rfl
  | cons t ts ih =>
    refine (ih (t.perform h)).trans ?_
    cases t with
    | send m k => exact h.desk?_send m k n
    | close k => exact h.desk?_closeOutbox k n

theorem closed_perform {h : Hub} {n : Nat} {c : Client} (hc : h.clients[n]? = some c) (t : Task) :
    ∃ c', (t.perform h).clients[n]? = some c' ∧ c'.outboxClosed = (c.outboxClosed || decide (n ∈ t.closes?.toList)) := by
  cases t with
  | send m k =>
    by_cases hk : k = n
    · subst hk
      cases hopen : c.outboxClosed with
      | true => exact ⟨c, by simp [Task.perform, send, hc, hopen, fail], by simp [hopen]⟩
      | false =>
        refine ⟨_, client_send hc hopen m, ?_⟩
        unfold Client.receive
        split <;> simp [hopen, Task.closes?]
    · exact ⟨c, (client_send_of_ne hk m).trans hc, by simp [Task.closes?]⟩
  | close k =>
    by_cases hk : k = n
    · subst hk
      exact ⟨_, client_closeOutbox hc, by simp [Task.closes?]⟩
    · exact ⟨c, (client_closeOutbox_of_ne hk).trans hc, by simp [Task.closes?, Ne.symm hk]⟩

theorem closed_performAll {h : Hub} {n : Nat} {c : Client} (hc : h.clients[n]? = some c) (ts : List Task) :
    ∃ c', (h.performAll ts).clients[n]? = some c' ∧
      c'.outboxClosed = (c.outboxClosed || decide (n ∈ ts.filterMap Task.closes?)) := by
  induction ts generalizing h c with
  | nil => exact ⟨c, hc, by simp⟩
  | cons t ts ih =>
    obtain ⟨c₁, hc₁, hclosed₁⟩ := closed_perform hc t
    obtain ⟨c₂, hc₂, hclosed₂⟩ := ih hc₁
    refine ⟨c₂, hc₂, ?_⟩
    rw [hclosed₂, hclosed₁, Bool.or_assoc]
    cases hcloses : t.closes? <;> simp [hcloses, Bool.decide_or]

end Hub

end Blockwright.Live
