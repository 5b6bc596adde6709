import Blockwright.Proofs.Live.Tasks
import Mathlib.Data.List.Induction
/-!
# Runs of the hub

Clients enter and leave, messages are posted, delivered and handed on, and rooms are tidied up, in any
order. In between, clients take their messages and are told things by their own readers and workers.
`Settled` ties the rooms to the history: after every event a client is in the room of its project, once,
if it has entered and not left, and there are no other rooms.
-/

namespace Blockwright.Live

/-! ## Events -/

/-- What happens at the hub, or to the queues of messages that it fills. -/
inductive HubEvent where
  | register (n : Nat)
  | unregister (n : Nat)
  /-- A message is put in the queue of the hub. -/
  | post (m : Message)
  /-- The bus tells of a generation. -/
  | deliver (project : String) (e : GeneratedEvent)
  /-- The hub broadcasts the oldest message that waits. -/
  | handOn
  | cleanup
  /-- The reader or the worker of a client tells it something. -/
  | tell (n : Nat) (m : Message)
  /-- Messages that waited for a client are sent to it. -/
  | write (n count : Nat)

namespace HubEvent

/-- The hub after an event. -/
def run (h : Hub) : HubEvent → Hub
  | .register n => h.register n
  | .unregister n => h.unregister n
  | .post m => h.enqueue m
  | .deliver project e => h.deliver project e
  | .handOn => h.broadcastNext
  | .cleanup => h.cleanup
  | .tell n m => h.send m n
  | .write n count => h.modify n fun c => { c with outbox := c.outbox.drop count }

/-- The event without its tasks, and these. -/
def start (h : Hub) : HubEvent → Hub × List Task
  | .register n => h.startRegister n
  | .unregister n => h.startUnregister n
  | .post m => (h.enqueue m, [])
  | .deliver project e => (h.deliver project e, [])
  | .handOn => h.startBroadcast
  | .cleanup => (h.cleanup, [])
  | .tell n m => (h, [.send m n])
  | .write n count => (h.modify n fun c => { c with outbox := c.outbox.drop count }, [])

theorem run_eq (e : HubEvent) (h : Hub) : e.run h = (e.start h).1.performAll (e.start h).2 := by
  cases e with
  | register n => exact h.register_eq n
  | unregister n => exact h.unregister_eq n
  | handOn => exact h.broadcastNext_eq
  | _ => rfl

/-- Whether the hub itself acts. -/
def isOfHub : HubEvent → Bool
  | .tell _ _ | .write _ _ => false
  | _ => true

def enters? : HubEvent → Option Nat
  | .register n => some n
  | _ => none

def leaves? : HubEvent → Option Nat
  | .unregister n => some n
  | _ => none

theorem clients_start {e : HubEvent} (he : e.isOfHub = true) (h : Hub) : (e.start h).1.clients = h.clients := by
  cases e with
  | register n => exact h.clients_startRegister n
  | unregister n => exact h.clients_startUnregister n
  | handOn => exact h.clients_startBroadcast
  | deliver project e =>
    show (h.deliver project e).clients = _
    unfold Hub.deliver
    split <;> rfl
  | tell n m => cases he
  | write n count => cases he
  | post m => rfl
  | cleanup => rfl

theorem rooms_run (e : HubEvent) (h : Hub) : (e.run h).rooms = (e.start h).1.rooms := by
  rw [run_eq, Hub.rooms_performAll]

end HubEvent

/-- The clients that have entered. -/
def entries (es : List HubEvent) : List Nat := es.filterMap (·.enters?)

/-- The clients that have left. -/
def exits (es : List HubEvent) : List Nat := es.filterMap (·.leaves?)

/-- A client has entered and not left. -/
def Inside (es : List HubEvent) (n : Nat) : Prop := n ∈ entries es ∧ n ∉ exits es

instance (es : List HubEvent) (n : Nat) : Decidable (Inside es n) := inferInstanceAs (Decidable (_ ∧ _))

theorem entries_concat (es : List HubEvent) (e : HubEvent) : entries (es ++ [e]) = entries es ++ e.enters?.toList := by
  cases e <;> simp [entries, HubEvent.enters?]

theorem exits_concat (es : List HubEvent) (e : HubEvent) : exits (es ++ [e]) = exits es ++ e.leaves?.toList := by
  cases e <;> simp [exits, HubEvent.leaves?]

/-- Other events than entering and leaving leave everybody where they are. -/
theorem inside_concat_iff {es : List HubEvent} {e : HubEvent} (henters : e.enters? = none) (hleaves : e.leaves? = none)
    (n : Nat) : Inside (es ++ [e]) n ↔ Inside es n := by
  rw [Inside, entries_concat, exits_concat, henters, hleaves, Option.toList_none, List.append_nil, List.append_nil]
  exact Iff.rfl

/-- No event touches a desk. -/
theorem HubEvent.desk?_run (e : HubEvent) (h : Hub) (n : Nat) : (e.run h).desk? n = h.desk? n := by
  rw [run_eq, Hub.desk?_performAll]
  cases hof : e.isOfHub with
  | true => exact Hub.desk?_of_clients (clients_start hof h) n
  | false =>
    cases e with
    | tell k m => rfl
    | write k count => exact Hub.desk?_modify_of_same fun _ => rfl
    | _ => cases hof

/-- Entering and leaving is for clients. -/
theorem HubEvent.run_of_nobody {e : HubEvent} {h : Hub} {n : Nat} (he : e.enters? = some n ∨ e.leaves? = some n)
    (hnobody : h.clients[n]? = none) : e.run h = h := by
  rw [run_eq]
  cases e with
  | register k =>
    obtain rfl : k = n := Option.some.inj (he.resolve_right nofun)
    simp only [start, Hub.startRegister, hnobody]
    rfl
  | unregister k =>
    obtain rfl : k = n := Option.some.inj (he.resolve_left nofun)
    simp only [start, Hub.startUnregister, hnobody]
    rfl
  | _ => rcases he with he | he <;> cases he

/-! ## Who is in a room -/

namespace Hub

/-- The clients in the room of a project. -/
def membersOf (h : Hub) (project : String) : List Nat := ((h.room? project).map (·.members)).getD []

theorem membersOf_of_rooms {h h' : Hub} (hrooms : h'.rooms = h.rooms) (project : String) :
    h'.membersOf project = h.membersOf project := by
  rw [membersOf, room?, hrooms, membersOf, room?]

theorem membersOf_of_room? {h : Hub} {project : String} {r : Room} (hr : h.room? project = some r) :
    h.membersOf project = r.members := by
  rw [membersOf, hr]
  rfl

theorem room?_of_mem_membersOf {h : Hub} {project : String} {n : Nat} (hn : n ∈ h.membersOf project) :
    ∃ r, h.room? project = some r ∧ r.members = h.membersOf project := by
  cases hr : h.room? project with
  | none => simp [membersOf, hr] at hn
  | some r => exact ⟨r, rfl, (membersOf_of_room? hr).symm⟩

theorem membersOf_putRoom (h : Hub) (r : Room) (project : String) :
    (h.putRoom r).membersOf project = if project = r.project then r.members else h.membersOf project := by
  rw [membersOf, room?_putRoom]
  split <;> rfl

theorem membersOf_keepRoom (h : Hub) (r : Room) (project : String) :
    (h.keepRoom r).membersOf project = if project = r.project then r.members else h.membersOf project := by
  rw [membersOf, room?_keepRoom]
  split
  · split
    · next hempty => rw [List.isEmpty_iff.1 hempty]; rfl
    · rfl
  · rfl

/-- Without those of a client's id, a room is without the client. -/
theorem filter_hasId {h : Hub} (hids : h.DistinctIds) {n : Nat} {c : Client} (hc : h.clients[n]? = some c)
    {members : List Nat} (hknown : ∀ k ∈ members, ∃ d, h.clients[k]? = some d) :
    members.filter (fun k => !h.hasId c.id k) = members.filter (· ≠ n) := by
  refine List.filter_congr fun k hk => ?_
  obtain ⟨d, hd⟩ := hknown k hk
  rw [hasId_eq hd]
  by_cases hkn : k = n
  · subst hkn
    obtain rfl := Option.some.inj (hc.symm.trans hd)
    simp
  · have hne : d.id ≠ c.id := fun heq => hkn (hids k n d c hd hc heq)
    simp [hkn, hne]

/-- Every room is found under its project and has somebody in it. -/
def Occupied (h : Hub) : Prop := ∀ r ∈ h.rooms, r.members ≠ [] ∧ h.room? r.project = some r

theorem Occupied.of_rooms {h h' : Hub} (hocc : h.Occupied) (hrooms : h'.rooms = h.rooms) : h'.Occupied := by
  intro r hr
  rw [hrooms] at hr
  rw [room?, hrooms]
  exact hocc r hr

theorem Occupied.putRoom {h : Hub} (hocc : h.Occupied) {r : Room} (hr : r.members ≠ []) : (h.putRoom r).Occupied := by
  intro r' hr'
  rw [room?_putRoom]
  rcases mem_putRoom hr' with rfl | ⟨hold, hne⟩
  · exact ⟨hr, if_pos rfl⟩
  · rw [if_neg hne]
    exact hocc r' hold

theorem Occupied.keepRoom {h : Hub} (hocc : h.Occupied) (r : Room) : (h.keepRoom r).Occupied := by
  intro r' hr'
  rw [room?_keepRoom]
  obtain ⟨rfl, hsome⟩ | ⟨hold, hne⟩ := mem_keepRoom hr'
  · exact ⟨hsome, by rw [if_pos rfl, if_neg (by simpa using hsome)]⟩
  · rw [if_neg hne]
    exact hocc r' hold

/-- There is nothing to tidy up. -/
theorem Occupied.rooms_cleanup {h : Hub} (hocc : h.Occupied) : h.cleanup.rooms = h.rooms := by
  refine List.filter_eq_self.2 fun r hr => ?_
  simpa using (hocc r hr).1

end Hub

/-! ## Histories -/

/-- Clients have ids of their own and open queues at first. Each enters at most once, and leaves at most
once after that. -/
structure Proper (cs : List Client) (es : List HubEvent) : Prop where
  ids : (cs.map (·.id)).Nodup
  opened : ∀ c ∈ cs, c.outboxClosed = false
  enterOnce : (entries es).Nodup
  leaveInside : ∀ past rest n, es = past ++ .unregister n :: rest → Inside past n

namespace Proper

variable {cs : List Client} {es rest : List HubEvent}

theorem of_append (h : Proper cs (es ++ rest)) : Proper cs es where
  ids := h.ids
  opened := h.opened
  enterOnce := by
    have honce := h.enterOnce
    rw [entries, List.filterMap_append] at honce
    exact (List.nodup_append.1 honce).1
  leaveInside past rest' n hes := h.leaveInside past (rest' ++ rest) n (by simp [hes])

theorem take (h : Proper cs es) (i : Nat) : Proper cs (es.take i) := by
  rw [← List.take_append_drop i es] at h
  exact h.of_append

/-- Whoever has left has entered. -/
theorem mem_entries (h : Proper cs es) {n : Nat} (hn : n ∈ exits es) : n ∈ entries es := by
  obtain ⟨e, he, hleaves⟩ := List.mem_filterMap.1 hn
  obtain rfl : e = .unregister n := by
    cases e <;> simp_all [HubEvent.leaves?]
  obtain ⟨past, rest, rfl⟩ := List.append_of_mem he
  have hentered := (h.leaveInside past rest n rfl).1
  rw [entries, List.filterMap_append]
  exact List.mem_append_left _ hentered

/-- Whoever enters is new. -/
theorem not_mem_entries {n : Nat} (h : Proper cs (es ++ [HubEvent.register n])) : n ∉ entries es := by
  have honce := h.enterOnce
  rw [entries_concat] at honce
  exact fun hn => List.disjoint_of_nodup_append honce hn (List.mem_singleton_self n)

theorem inside {n : Nat} (h : Proper cs (es ++ [HubEvent.unregister n])) : Inside es n := h.leaveInside es [] n rfl

/-- Whoever enters is inside, and with it those who were. -/
theorem inside_register_iff {n : Nat} (h : Proper cs (es ++ [HubEvent.register n])) (k : Nat) :
    Inside (es ++ [HubEvent.register n]) k ↔ Inside es k ∨ k = n := by
  have hexits : n ∉ exits es := fun hn => h.not_mem_entries (h.of_append.mem_entries hn)
  rw [Inside, entries_concat, exits_concat]
  simp only [HubEvent.enters?, HubEvent.leaves?, Option.toList_some, Option.toList_none, List.append_nil,
    List.mem_append, List.mem_singleton, Inside]
  constructor
  · rintro ⟨hk | rfl, hexit⟩
    · exact .inl ⟨hk, hexit⟩
    · exact .inr rfl
  · rintro (⟨hk, hexit⟩ | rfl)
    · exact ⟨.inl hk, hexit⟩
    · exact ⟨.inr rfl, hexits⟩

end Proper

/-- Whoever leaves is no longer inside. -/
theorem inside_unregister_iff (es : List HubEvent) (n k : Nat) :
    Inside (es ++ [HubEvent.unregister n]) k ↔ Inside es k ∧ k ≠ n := by
  rw [Inside, entries_concat, exits_concat]
  simp [HubEvent.enters?, HubEvent.leaves?, Inside, not_or, and_assoc]

/-- The rooms and queues are as the history says. -/
structure Settled (cs : List Client) (es : List HubEvent) (h : Hub) : Prop where
  desks : ∀ n, h.desk? n = (cs[n]?).map (·.desk)
  /-- The queue of whoever has left is closed. -/
  closed : ∀ n c, h.clients[n]? = some c → (c.outboxClosed = true ↔ n ∈ exits es)
  /-- Whoever is inside is in the room of its project. -/
  members : ∀ project n, n ∈ h.membersOf project ↔ Inside es n ∧ ∃ c, cs[n]? = some c ∧ c.project = project
  nodup : ∀ project, (h.membersOf project).Nodup
  occupied : h.Occupied

namespace HubEvent

/-- Only leaving closes a queue. -/
theorem closes_start {e : HubEvent} (he : e.leaves? = none) (h : Hub) : (e.start h).2.filterMap Task.closes? = [] := by
  cases e with
  | register n =>
    show (h.startRegister n).2.filterMap _ = _
    unfold Hub.startRegister
    split
    · rfl
    · simp [List.filterMap_append, Task.closes?]
  | handOn =>
    show h.startBroadcast.2.filterMap _ = _
    unfold Hub.startBroadcast
    split
    · rfl
    · exact Task.closes_sends ..
  | unregister n => cases he
  | _ => rfl

/-- Whoever leaves a room has its queue closed. -/
theorem closes_unregister {h : Hub} {n : Nat} {c : Client} {r : Room} (hc : h.clients[n]? = some c)
    (hr : h.room? c.project = some r) : ((HubEvent.unregister n).start h).2.filterMap Task.closes? = [n] := by
  simp only [start, Hub.startUnregister, hc, hr, List.filterMap_append]
  split
  · rw [Task.closes_sends]
    rfl
  · rfl

theorem closes_unregister_of_ne (h : Hub) {n k : Nat} (hne : n ≠ k) :
    n ∉ ((HubEvent.unregister k).start h).2.filterMap Task.closes? := by
  show n ∉ (h.startUnregister k).2.filterMap _
  unfold Hub.startUnregister
  split
  · simp
  · split
    · simp
    · dsimp only
      rw [List.filterMap_append]
      split
      · rw [Task.closes_sends]
        simpa [Task.closes?] using hne
      · simpa [Task.closes?] using hne

theorem closed_run {e : HubEvent} {h : Hub} {n : Nat} {c c' : Client} (hc : h.clients[n]? = some c)
    (hc' : (e.run h).clients[n]? = some c') :
    c'.outboxClosed = (c.outboxClosed || decide (n ∈ (e.start h).2.filterMap Task.closes?)) := by
  have hstart : ∃ d, (e.start h).1.clients[n]? = some d ∧ d.outboxClosed = c.outboxClosed := by
    cases hof : e.isOfHub with
    | true => exact ⟨c, (congrArg (·[n]?) (clients_start hof h)).trans hc, rfl⟩
    | false =>
      cases e with
      | tell k m => exact ⟨c, hc, rfl⟩
      | write k count =>
        by_cases hk : k = n
        · subst hk
          exact ⟨{ c with outbox := c.outbox.drop count }, by simp [start, Hub.modify, hc], rfl⟩
        · exact ⟨c, by simp [start, Hub.modify, hk, hc], rfl⟩
      | _ => cases hof
  obtain ⟨d, hd, hclosed⟩ := hstart
  obtain ⟨d', hd', hclosed'⟩ := Hub.closed_performAll hd (e.start h).2
  rw [run_eq] at hc'
  obtain rfl := Option.some.inj (hd'.symm.trans hc')
  rw [hclosed', hclosed]

end HubEvent

namespace Settled

variable {cs : List Client} {es : List HubEvent} {hub : Hub} {n : Nat}

theorem start (hp : Proper cs []) : Settled cs [] { clients := cs } where
  desks _ := rfl
  closed n c hc := iff_of_false (by simp [hp.opened c (List.mem_of_getElem? hc)]) (by simp [exits])
  members project n := iff_of_false (by simp [Hub.membersOf, Hub.room?]) (by simp [Inside, entries])
  nodup project := by simp [Hub.membersOf, Hub.room?]
  occupied := by simp [Hub.Occupied]

/-- A client of the hub is one of those that came, but for its queue of messages. -/
theorem origin (h : Settled cs es hub) {c : Client} (hc : hub.clients[n]? = some c) :
    ∃ c₀, cs[n]? = some c₀ ∧ c₀.desk = c.desk :=
  Option.map_eq_some_iff.1 ((h.desks n).symm.trans (Hub.desk?_of_client hc))

theorem client (h : Settled cs es hub) {c₀ : Client} (hc₀ : cs[n]? = some c₀) :
    ∃ c, hub.clients[n]? = some c ∧ c.desk = c₀.desk :=
  Hub.client_of_desk? ((h.desks n).trans (by rw [hc₀, Option.map_some]))

theorem project_eq (h : Settled cs es hub) {c d : Client} (hc : hub.clients[n]? = some c) (hd : cs[n]? = some d) :
    d.project = c.project := by
  obtain ⟨c₀, hc₀, hdesk⟩ := h.origin hc
  obtain rfl := Option.some.inj (hc₀.symm.trans hd)
  exact Client.project_of_desk hdesk

theorem nobody (h : Settled cs es hub) (hnobody : hub.clients[n]? = none) : cs[n]? = none :=
  Option.map_eq_none_iff.1 ((h.desks n).symm.trans (by rw [Hub.desk?, hnobody, Option.map_none]))

theorem distinctIds (h : Settled cs es hub) (hids : (cs.map (·.id)).Nodup) : hub.DistinctIds := by
  intro n k c d hc hd heq
  obtain ⟨c₀, hc₀, hcdesk⟩ := h.origin hc
  obtain ⟨d₀, hd₀, hddesk⟩ := h.origin hd
  have hn : n < (cs.map (·.id)).length := by
    rw [List.length_map]
    exact (List.getElem?_eq_some_iff.1 hc₀).1
  refine (List.getElem?_inj hn hids).1 ?_
  simp [List.getElem?_map, hc₀, hd₀, Client.id_of_desk hcdesk, Client.id_of_desk hddesk, heq]

/-- The members of a room are clients of its project. -/
theorem member (h : Settled cs es hub) {project : String} {k : Nat} (hk : k ∈ hub.membersOf project) :
    ∃ d, hub.clients[k]? = some d ∧ d.project = project := by
  obtain ⟨-, d₀, hd₀, hproject⟩ := (h.members project k).1 hk
  obtain ⟨d, hd, hdesk⟩ := h.client hd₀
  exact ⟨d, hd, (Client.project_of_desk hdesk).trans hproject⟩

theorem desks_run (h : Settled cs es hub) (e : HubEvent) (n : Nat) : (e.run hub).desk? n = (cs[n]?).map (·.desk) :=
  (e.desk?_run hub n).trans (h.desks n)

/-- Whoever is inside has a room. -/
theorem room (h : Settled cs es hub) {c : Client} (hc : hub.clients[n]? = some c) (hin : Inside es n) :
    ∃ r, hub.room? c.project = some r ∧ r.members = hub.membersOf c.project ∧ n ∈ r.members := by
  obtain ⟨c₀, hc₀, hdesk⟩ := h.origin hc
  have hn : n ∈ hub.membersOf c.project := (h.members c.project n).2 ⟨hin, c₀, hc₀, Client.project_of_desk hdesk⟩
  obtain ⟨r, hr, hmembers⟩ := Hub.room?_of_mem_membersOf hn
  exact ⟨r, hr, hmembers, hmembers ▸ hn⟩

theorem closed_run (h : Settled cs es hub) {e : HubEvent} (hp : Proper cs (es ++ [e])) {c' : Client}
    (hc' : (e.run hub).clients[n]? = some c') : c'.outboxClosed = true ↔ n ∈ exits (es ++ [e]) := by
  obtain ⟨c, hc, -⟩ := Hub.client_of_desk? ((e.desk?_run hub n).symm.trans (Hub.desk?_of_client hc'))
  rw [HubEvent.closed_run hc hc', Bool.or_eq_true, decide_eq_true_iff, h.closed n c hc, exits_concat, List.mem_append]
  refine or_congr_right ?_
  cases e with
  | unregister k =>
    by_cases hk : n = k
    · subst hk
      obtain ⟨r, hr, -, -⟩ := h.room hc hp.inside
      rw [HubEvent.closes_unregister hc hr]
      rfl
    · exact iff_of_false (HubEvent.closes_unregister_of_ne hub hk) (by simpa [HubEvent.leaves?] using hk)
  | _ => rw [HubEvent.closes_start rfl]; rfl

/-- An event by which nobody gets in or out leaves the rooms as they are. -/
theorem stay (h : Settled cs es hub) {e : HubEvent} (hp : Proper cs (es ++ [e])) (hrooms : (e.run hub).rooms = hub.rooms)
    (hinside : ∀ k, cs[k]? ≠ none → (Inside (es ++ [e]) k ↔ Inside es k)) : Settled cs (es ++ [e]) (e.run hub) where
  desks := h.desks_run e
  closed _ _ hc := h.closed_run hp hc
  members project k := by
    rw [Hub.membersOf_of_rooms hrooms, h.members]
    refine and_congr_left ?_
    rintro ⟨d, hd, -⟩
    exact (hinside k (by simp [hd])).symm
  nodup project := by
    rw [Hub.membersOf_of_rooms hrooms]
    exact h.nodup project
  occupied := h.occupied.of_rooms hrooms

/-- An event by which one client gets in or out changes the room of its project. -/
theorem move (h : Settled cs es hub) {e : HubEvent} (hp : Proper cs (es ++ [e])) {c : Client}
    (hc : hub.clients[n]? = some c) {members : List Nat}
    (hmembersOf : ∀ project,
      (e.run hub).membersOf project = if project = c.project then members else hub.membersOf project)
    (hmembers : ∀ k, k ∈ members ↔ Inside (es ++ [e]) k ∧ ∃ d, cs[k]? = some d ∧ d.project = c.project)
    (hnodup : members.Nodup) (hothers : ∀ k, k ≠ n → (Inside (es ++ [e]) k ↔ Inside es k))
    (hoccupied : (e.run hub).Occupied) : Settled cs (es ++ [e]) (e.run hub) where
  desks := h.desks_run e
  closed _ _ hc := h.closed_run hp hc
  members project k := by
    rw [hmembersOf]
    split
    · next heq =>
      rw [heq]
      exact hmembers k
    · next hne =>
      rw [h.members]
      refine and_congr_left ?_
      rintro ⟨d, hd, hproject⟩
      refine (hothers k ?_).symm
      rintro rfl
      exact hne (hproject.symm.trans (h.project_eq hc hd))
  nodup project := by
    rw [hmembersOf]
    split
    · exact hnodup
    · exact h.nodup project
  occupied := hoccupied

/-- The rooms stay as they are unless somebody enters or leaves. -/
theorem rooms_run (h : Settled cs es hub) {e : HubEvent} (henters : e.enters? = none) (hleaves : e.leaves? = none) :
    (e.run hub).rooms = hub.rooms := by
  cases e with
  | register n => cases henters
  | unregister n => cases hleaves
  | cleanup => exact h.occupied.rooms_cleanup
  | deliver project e =>
    show (hub.deliver project e).rooms = _
    unfold Hub.deliver
    split <;> rfl
  | handOn =>
    rw [HubEvent.rooms_run]
    show hub.startBroadcast.1.rooms = _
    unfold Hub.startBroadcast
    split <;> rfl
  | tell k m =>
    rw [HubEvent.rooms_run]
    rfl
  | _ => rfl

/-- A client that enters comes to the end of its room. -/
theorem startRegister (h : Settled cs es hub) (hp : Proper cs (es ++ [HubEvent.register n])) {c : Client}
    (hc : hub.clients[n]? = some c) :
    (hub.startRegister n).1 = hub.putRoom { project := c.project, members := hub.membersOf c.project ++ [n] } ∧
    (hub.startRegister n).2 =
      (hub.membersOf c.project ++ [n]).map (.send (c.message .userJoin (.joined c.info))) ++
        [Task.send (Hub.systemMessage .userJoin c.project
          (.roster (Hub.usersOf (hub.clientsOf (hub.membersOf c.project ++ [n]))))) n] := by
  have hnew : n ∉ hub.membersOf c.project := fun hn => hp.not_mem_entries ((h.members c.project n).1 hn).1.1
  have hothers : hub.othersIn c.project c.id = hub.membersOf c.project := by
    show (hub.membersOf c.project).filter _ = _
    rw [Hub.filter_hasId (h.distinctIds hp.ids) hc fun k hk => (h.member hk).imp fun _ hd => hd.1]
    exact List.filter_eq_self.2 fun k hk => by simpa using fun heq : k = n => hnew (heq ▸ hk)
  simp only [Hub.startRegister, hc, hothers]
  exact ⟨trivial, trivial⟩

theorem rooms_register (h : Settled cs es hub) (hp : Proper cs (es ++ [HubEvent.register n])) {c : Client}
    (hc : hub.clients[n]? = some c) :
    ((HubEvent.register n).run hub).rooms =
      (hub.putRoom { project := c.project, members := hub.membersOf c.project ++ [n] }).rooms :=
  ((HubEvent.register n).rooms_run hub).trans (congrArg Hub.rooms (h.startRegister hp hc).1)

theorem membersOf_register (h : Settled cs es hub) (hp : Proper cs (es ++ [HubEvent.register n])) {c : Client}
    (hc : hub.clients[n]? = some c) (project : String) :
    ((HubEvent.register n).run hub).membersOf project =
      if project = c.project then hub.membersOf c.project ++ [n] else hub.membersOf project := by
  rw [Hub.membersOf_of_rooms (h.rooms_register hp hc), Hub.membersOf_putRoom]

theorem register (h : Settled cs es hub) (hp : Proper cs (es ++ [HubEvent.register n])) :
    Settled cs (es ++ [HubEvent.register n]) ((HubEvent.register n).run hub) := by
  have hothers : ∀ k, k ≠ n → (Inside (es ++ [HubEvent.register n]) k ↔ Inside es k) := fun k hne => by
    rw [hp.inside_register_iff, or_iff_left hne]
  cases hc : hub.clients[n]? with
  | none =>
    refine h.stay hp (by rw [HubEvent.run_of_nobody (.inl rfl) hc]) fun k hk => hothers k ?_
    rintro rfl
    exact hk (h.nobody hc)
  | some c =>
    obtain ⟨c₀, hc₀, -⟩ := h.origin hc
    refine h.move hp hc (h.membersOf_register hp hc) (fun k => ?_) ?_ hothers
      (Hub.Occupied.of_rooms (h.occupied.putRoom (by simp)) (h.rooms_register hp hc))
    · rw [hp.inside_register_iff, List.mem_append, List.mem_singleton, h.members, or_and_right]
      refine or_congr_right (iff_self_and.2 ?_)
      rintro rfl
      exact ⟨c₀, hc₀, h.project_eq hc hc₀⟩
    · refine List.nodup_append.2 ⟨h.nodup _, List.nodup_singleton n, ?_⟩
      rintro k hk j hj rfl
      obtain rfl := List.mem_singleton.1 hj
      exact hp.not_mem_entries ((h.members c.project k).1 hk).1.1

/-- A client that leaves is taken from its room. -/
theorem startUnregister (h : Settled cs es hub) (hp : Proper cs (es ++ [HubEvent.unregister n])) {c : Client}
    (hc : hub.clients[n]? = some c) :
    let rest := (hub.membersOf c.project).filter (· ≠ n)
    (hub.startUnregister n).1 = hub.keepRoom { project := c.project, members := rest } ∧
    (hub.startUnregister n).2 = rest.map (.send (c.message .userLeave (.joined c.info))) ++ [Task.close n] := by
  intro rest
  obtain ⟨r, hr, hmembers, hn⟩ := h.room hc hp.inside
  have hrest : r.members.filter (fun k => !hub.hasId c.id k) = rest := by
    rw [hmembers]
    exact Hub.filter_hasId (h.distinctIds hp.ids) hc fun k hk => (h.member hk).imp fun _ hd => hd.1
  rw [Hub.startUnregister_of_member hc hr hn, hrest, (Hub.mem_of_room? hr).2]
  exact ⟨rfl, rfl⟩

theorem rooms_unregister (h : Settled cs es hub) (hp : Proper cs (es ++ [HubEvent.unregister n])) {c : Client}
    (hc : hub.clients[n]? = some c) :
    ((HubEvent.unregister n).run hub).rooms =
      (hub.keepRoom { project := c.project, members := (hub.membersOf c.project).filter (· ≠ n) }).rooms :=
  ((HubEvent.unregister n).rooms_run hub).trans (congrArg Hub.rooms (h.startUnregister hp hc).1)

theorem membersOf_unregister (h : Settled cs es hub) (hp : Proper cs (es ++ [HubEvent.unregister n])) {c : Client}
    (hc : hub.clients[n]? = some c) (project : String) :
    ((HubEvent.unregister n).run hub).membersOf project =
      if project = c.project then (hub.membersOf c.project).filter (· ≠ n) else hub.membersOf project := by
  rw [Hub.membersOf_of_rooms (h.rooms_unregister hp hc), Hub.membersOf_keepRoom]

theorem unregister (h : Settled cs es hub) (hp : Proper cs (es ++ [HubEvent.unregister n])) :
    Settled cs (es ++ [HubEvent.unregister n]) ((HubEvent.unregister n).run hub) := by
  have hothers : ∀ k, k ≠ n → (Inside (es ++ [HubEvent.unregister n]) k ↔ Inside es k) := fun k hne => by
    rw [inside_unregister_iff, and_iff_left hne]
  cases hc : hub.clients[n]? with
  | none =>
    refine h.stay hp (by rw [HubEvent.run_of_nobody (.inr rfl) hc]) fun k hk => hothers k ?_
    rintro rfl
    exact hk (h.nobody hc)
  | some c =>
    refine h.move hp hc (h.membersOf_unregister hp hc) (fun k => ?_) ((h.nodup _).filter _) hothers
      (Hub.Occupied.of_rooms (h.occupied.keepRoom _) (h.rooms_unregister hp hc))
    rw [inside_unregister_iff, and_right_comm, List.mem_filter, h.members, decide_eq_true_iff]

/-- Every event leaves the rooms and queues as the history says. -/
theorem run (h : Settled cs es hub) {e : HubEvent} (hp : Proper cs (es ++ [e])) :
    Settled cs (es ++ [e]) (e.run hub) := by
  have hstay : e.enters? = none → e.leaves? = none → Settled cs (es ++ [e]) (e.run hub) :=
    fun henters hleaves => h.stay hp (h.rooms_run henters hleaves) fun k _ => inside_concat_iff henters hleaves k
  cases e with
  | register n => exact h.register hp
  | unregister n => exact h.unregister hp
  | _ => exact hstay rfl rfl

end Settled

/-- The hub after a history. -/
def after (cs : List Client) (es : List HubEvent) : Hub := es.foldl HubEvent.run { clients := cs }

theorem after_concat (cs : List Client) (es : List HubEvent) (e : HubEvent) :
    after cs (es ++ [e]) = e.run (after cs es) := List.foldl_concat ..

/-- After every history, the rooms and queues are as it says. -/
theorem settled_after {cs : List Client} {es : List HubEvent} (hp : Proper cs es) : Settled cs es (after cs es) := by
  induction es using List.reverseRecOn with
  | nil => exact .start hp
  | append_singleton es e ih =>
    rw [after_concat]
    exact (ih hp.of_append).run hp

end Blockwright.Live
