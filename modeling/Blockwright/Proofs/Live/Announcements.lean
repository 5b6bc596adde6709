import Blockwright.Proofs.Live.Events
/-!
# Rooms are apart, and their clients agree

In each event the hub announces one message at most, to one room. It goes to those who are in that room
after the event, unless their queue is full. So what a client receives are the announcements to its room
from when it enters until it leaves, in their order, less those that found its queue full.
-/

namespace Blockwright.Live

/-! ## What is announced -/

theorem Client.project_message (c : Client) (type : MessageType) (data : Payload) :
    (c.message type data).project = c.project := rfl

namespace HubEvent

/-- The message that the hub hands to a room. -/
def announcement? (h : Hub) : HubEvent → Option Message
  | .register n => (h.clients[n]?).map fun c => c.message .userJoin (.joined c.info)
  | .unregister n => (h.clients[n]?).map fun c => c.message .userLeave (.joined c.info)
  | .handOn => h.queue.head?
  | _ => none

/-- What the hub tells a client that enters about who is there. -/
def roster? (h : Hub) (n : Nat) : HubEvent → Option Message
  | .register k =>
    if k = n then
      (h.clients[k]?).map fun c => Hub.systemMessage .userJoin c.project
        (.roster (Hub.usersOf (h.clientsOf (h.membersOf c.project ++ [k]))))
    else none
  | _ => none

end HubEvent

namespace Settled

variable {cs : List Client} {es : List HubEvent} {hub : Hub} {e : HubEvent} {n : Nat}

/-- An announcement goes to those who are in the room after the event, and nothing else is sent but to
whoever enters. -/
theorem messagesFor_start (h : Settled cs es hub) (hp : Proper cs (es ++ [e])) (he : e.isOfHub = true) (n : Nat) :
    messagesFor n (e.start hub).2 =
      ((e.announcement? hub).filter fun m => n ∈ (e.run hub).membersOf m.project).toList ++ (e.roster? hub n).toList := by
  cases e with
  | register k =>
    cases hc : hub.clients[k]? with
    | none => simp [HubEvent.start, Hub.startRegister, HubEvent.announcement?, HubEvent.roster?, hc, messagesFor]
    | some c =>
      have hmembers := (h.membersOf_register hp hc c.project).trans (if_pos rfl)
      have hnodup := (h.run hp).nodup c.project
      rw [hmembers] at hnodup
      have hsends := messagesFor_sends hnodup (c.message .userJoin (.joined c.info)) n
      rw [messagesFor] at hsends ⊢
      simp only [HubEvent.start, (h.startRegister hp hc).2, List.filterMap_append, hsends, HubEvent.announcement?,
        HubEvent.roster?, hc, Option.map_some, Option.filter_some, Client.project_message, hmembers, decide_eq_true_eq]
      by_cases hk : k = n <;> simp [Task.messageFor?, hk]
  | unregister k =>
    cases hc : hub.clients[k]? with
    | none => simp [HubEvent.start, Hub.startUnregister, HubEvent.announcement?, HubEvent.roster?, hc, messagesFor]
    | some c =>
      have hmembers := (h.membersOf_unregister hp hc c.project).trans (if_pos rfl)
      have hsends := messagesFor_sends ((h.nodup c.project).filter (· ≠ k)) (c.message .userLeave (.joined c.info)) n
      rw [messagesFor] at hsends ⊢
      simp only [HubEvent.start, (h.startUnregister hp hc).2, List.filterMap_append, hsends, HubEvent.announcement?,
        HubEvent.roster?, hc, Option.map_some, Option.filter_some, Client.project_message, hmembers, decide_eq_true_eq]
      rfl
  | handOn =>
    cases hq : hub.queue with
    | nil => simp [HubEvent.start, Hub.startBroadcast, HubEvent.announcement?, HubEvent.roster?, hq, messagesFor]
    | cons m rest =>
      have hmembers := Hub.membersOf_of_rooms (h.rooms_run (e := .handOn) rfl rfl) m.project
      have hstart : (HubEvent.handOn.start hub).2 = (hub.membersOf m.project).map (.send m) := by
        simp only [HubEvent.start, Hub.startBroadcast, hq]
        rfl
      rw [hstart, messagesFor_sends (h.nodup m.project)]
      simp only [HubEvent.announcement?, HubEvent.roster?, hq, List.head?_cons, Option.filter_some, hmembers,
        decide_eq_true_eq, Option.toList_none, List.append_nil]
  | tell k m => cases he
  | write k count => cases he
  | _ => rfl

/-- Nobody is sent anything who is not inside. -/
theorem messagesFor_of_mem_exits (h : Settled cs es hub) (hp : Proper cs (es ++ [e])) (he : e.isOfHub = true)
    (hn : n ∈ exits (es ++ [e])) : messagesFor n (e.start hub).2 = [] := by
  have hannounced : ((e.announcement? hub).filter fun m => n ∈ (e.run hub).membersOf m.project) = none := by
    rw [Option.filter_eq_none_iff]
    intro m _ hmember
    exact (((h.run hp).members m.project n).1 (of_decide_eq_true hmember)).1.2 hn
  have hroster : e.roster? hub n = none := by
    cases e with
    | register k =>
      refine if_neg fun hk => ?_
      subst hk
      have hleft : k ∈ exits es := by simpa [exits_concat, HubEvent.leaves?] using hn
      exact hp.not_mem_entries (hp.of_append.mem_entries hleft)
    | _ => rfl
  rw [h.messagesFor_start hp he, hannounced, hroster]
  rfl

/-- A client gets of an event what there is room for. -/
theorem outbox_run (h : Settled cs es hub) (hp : Proper cs (es ++ [e])) (he : e.isOfHub = true) {c : Client}
    (hc : hub.clients[n]? = some c) :
    ∃ c', (e.run hub).clients[n]? = some c' ∧
      c'.outbox = c.outbox ++ (messagesFor n (e.start hub).2).take (outboxCapacity - c.outbox.length) := by
  have hstart : (e.start hub).1.clients[n]? = some c := by rw [HubEvent.clients_start he, hc]
  by_cases hn : n ∈ exits (es ++ [e])
  · have hquiet := h.messagesFor_of_mem_exits hp he hn
    have hrun := Hub.client_performAll_quiet hstart hquiet
    rw [← HubEvent.run_eq] at hrun
    exact ⟨_, hrun, by simp [hquiet]⟩
  · obtain ⟨c', hc', -⟩ := Hub.client_of_desk? ((e.desk?_run hub n).trans (Hub.desk?_of_client hc))
    have hopen : c'.outboxClosed = false := by
      rw [Bool.eq_false_iff, ne_eq, h.closed_run hp hc']
      exact hn
    rw [HubEvent.closed_run hc hc', Bool.or_eq_false_iff, decide_eq_false_iff_not] at hopen
    have hclose : .close n ∉ (e.start hub).2 := fun hclose => hopen.2 (List.mem_filterMap.2 ⟨_, hclose, rfl⟩)
    have hrun := Hub.client_performAll hstart hopen.1 hclose
    rw [← HubEvent.run_eq, Client.foldl_receive] at hrun
    exact ⟨_, hrun, rfl⟩

end Settled

/-! ## What clients receive -/

/-- The messages that wait for a client. -/
def Hub.outboxOf (h : Hub) (n : Nat) : List Message := ((h.clients[n]?).map (·.outbox)).getD []

/-- What the hub put in the queue of a client in an event of a history. -/
def gain (cs : List Client) (es : List HubEvent) (n i : Nat) : List Message :=
  if (es[i]?).any (·.isOfHub) then
    ((after cs (es.take (i + 1))).outboxOf n).drop ((after cs (es.take i)).outboxOf n).length
  else []

/-- What the hub announced in an event of a history. -/
def announced? (cs : List Client) (es : List HubEvent) (i : Nat) : Option Message :=
  (es[i]?).bind (·.announcement? (after cs (es.take i)))

/-- The queue of a client has room when an event of a history comes. -/
def HasRoom (cs : List Client) (es : List HubEvent) (n i : Nat) : Prop :=
  ((after cs (es.take i)).outboxOf n).length < outboxCapacity

instance (cs : List Client) (es : List HubEvent) (n i : Nat) : Decidable (HasRoom cs es n i) :=
  inferInstanceAs (Decidable (_ < _))

/-- The events in which the hub announced something to a project while a client was inside. -/
def window (cs : List Client) (es : List HubEvent) (project : String) (n : Nat) : List Nat :=
  (List.range es.length).filter fun i =>
    Inside (es.take (i + 1)) n ∧ (announced? cs es i).any (·.project = project) = true

/-- The events in which the hub put something in the queue of a client. -/
def received (cs : List Client) (es : List HubEvent) (n : Nat) : List Nat :=
  (List.range es.length).filter fun i => !(gain cs es n i).isEmpty

section Histories

variable {cs : List Client} {es : List HubEvent} {n i : Nat} {c : Client} {e : HubEvent}

theorem take_succ_of (he : es[i]? = some e) : es.take (i + 1) = es.take i ++ [e] := by
  rw [List.take_add_one, he]
  rfl

/-- The announcement of an event to the room of a client that is inside after it. -/
def due? (cs : List Client) (es : List HubEvent) (c : Client) (n i : Nat) : Option Message :=
  (announced? cs es i).filter fun m => decide (Inside (es.take (i + 1)) n) && decide (m.project = c.project)

theorem due?_isSome_iff : (due? cs es c n i).isSome = true ↔
    Inside (es.take (i + 1)) n ∧ (announced? cs es i).any (·.project = c.project) = true := by
  rw [due?]
  cases announced? cs es i with
  | none => simp
  | some m =>
    rw [Option.filter_some, Option.any_some]
    split <;> simp_all

/-- What a client gets of an event: the announcement to its room, and who is there when it enters. -/
theorem gain_eq (hp : Proper cs es) (hc : cs[n]? = some c) (he : es[i]? = some e) (hof : e.isOfHub = true) :
    gain cs es n i = ((due? cs es c n i).toList ++ (e.roster? (after cs (es.take i)) n).toList).take
      (outboxCapacity - ((after cs (es.take i)).outboxOf n).length) := by
  have htake := take_succ_of he
  have hproper : Proper cs (es.take i ++ [e]) := htake ▸ hp.take (i + 1)
  have hsettled := settled_after (hp.take i)
  obtain ⟨d, hd, -⟩ := hsettled.client hc
  obtain ⟨d', hd', houtbox⟩ := hsettled.outbox_run hproper hof hd
  have hbefore : (after cs (es.take i)).outboxOf n = d.outbox := by rw [Hub.outboxOf, hd]; rfl
  have hafter : (after cs (es.take (i + 1))).outboxOf n = d'.outbox := by
    rw [htake, after_concat, Hub.outboxOf, hd']
    rfl
  rw [gain, he, Option.any_some, hof, if_pos rfl, hafter, hbefore, houtbox, List.drop_left,
    hsettled.messagesFor_start hproper hof, due?, announced?, he, Option.bind_some, htake]
  congr 4
  funext m
  have hmember : n ∈ (e.run (after cs (es.take i))).membersOf m.project ↔
      Inside (es.take i ++ [e]) n ∧ m.project = c.project := by
    rw [(hsettled.run hproper).members, hc]
    simp [eq_comm]
  simp [hmember]

/-- Who is there is told only to a client that enters, and with its own announcement. -/
theorem roster?_cases (hp : Proper cs es) (hc : cs[n]? = some c) (he : es[i]? = some e) :
    e.roster? (after cs (es.take i)) n = none ∨ e = .register n ∧
      (∃ users, e.roster? (after cs (es.take i)) n = some (Hub.systemMessage .userJoin c.project (.roster users))) ∧
      (due? cs es c n i).isSome = true := by
  cases e with
  | register k =>
    by_cases hk : k = n
    · subst hk
      obtain ⟨d, hd, hdesk⟩ := (settled_after (hp.take i)).client hc
      have hproject := Client.project_of_desk hdesk
      have hproper : Proper cs (es.take i ++ [HubEvent.register k]) := take_succ_of he ▸ hp.take (i + 1)
      have hinside : Inside (es.take (i + 1)) k := take_succ_of he ▸ (hproper.inside_register_iff k).2 (.inr rfl)
      refine .inr ⟨rfl, ?_, due?_isSome_iff.2 ⟨hinside, ?_⟩⟩
      · simp only [HubEvent.roster?, if_true, hd, Option.map_some, hproject]
        exact ⟨_, rfl⟩
      · simp [announced?, he, HubEvent.announcement?, hd, Client.project_message, hproject]
    · exact .inl (if_neg hk)
  | _ => exact .inl rfl

theorem room_cases (cs : List Client) (es : List HubEvent) (n i : Nat) :
    (HasRoom cs es n i ∧ ∃ k, outboxCapacity - ((after cs (es.take i)).outboxOf n).length = k + 1) ∨
      (¬ HasRoom cs es n i ∧ outboxCapacity - ((after cs (es.take i)).outboxOf n).length = 0) := by
  unfold HasRoom
  rcases Nat.lt_or_ge ((after cs (es.take i)).outboxOf n).length outboxCapacity with hroom | hfull
  · exact .inl ⟨hroom, Nat.exists_eq_add_one.2 (Nat.sub_pos_of_lt hroom)⟩
  · exact .inr ⟨Nat.not_lt.2 hfull, Nat.sub_eq_zero_of_le hfull⟩

/-- Whatever reaches a client in an event, the announcement comes first. -/
theorem gain_cases (hp : Proper cs es) (hc : cs[n]? = some c) (i : Nat) :
    (gain cs es n i = [] ∧ ¬ ((due? cs es c n i).isSome = true ∧ HasRoom cs es n i)) ∨
    ∃ m, due? cs es c n i = some m ∧ HasRoom cs es n i ∧
      (gain cs es n i = [m] ∨ es[i]? = some (.register n) ∧
        ∃ users, gain cs es n i = [m, Hub.systemMessage .userJoin c.project (.roster users)]) := by
  cases he : es[i]? with
  | none => exact .inl ⟨by simp [gain, he], by simp [due?, announced?, he]⟩
  | some e =>
    cases hof : e.isOfHub with
    | false =>
      have hnone : e.announcement? (after cs (es.take i)) = none := by cases e <;> first | rfl | cases hof
      exact .inl ⟨by simp [gain, he, hof], by simp [due?, announced?, he, hnone]⟩
    | true =>
      have hgain := gain_eq hp hc he hof
      obtain ⟨hroom, k, hk⟩ | ⟨hnoroom, hfull⟩ := room_cases cs es n i
      · rw [hk] at hgain
        cases hdue : due? cs es c n i with
        | none =>
          rcases roster?_cases hp hc he with hroster | ⟨-, -, hsome⟩
          · exact .inl ⟨by simpa [hdue, hroster] using hgain, by simp⟩
          · rw [hdue] at hsome
            cases hsome
        | some m =>
          refine .inr ⟨m, rfl, hroom, ?_⟩
          rcases roster?_cases hp hc he with hroster | ⟨rfl, ⟨users, hroster⟩, -⟩
          · exact .inl (by simpa [hdue, hroster] using hgain)
          · cases k with
            | zero => exact .inl (by simpa [hdue, hroster] using hgain)
            | succ k => exact .inr ⟨rfl, users, by simpa [hdue, hroster] using hgain⟩
      · rw [hfull, List.take_zero] at hgain
        exact .inl ⟨hgain, fun hboth => hnoroom hboth.2⟩

/-- What a client of a project hears from the hub. -/
structure Hears (cs : List Client) (es : List HubEvent) (n : Nat) (c : Client) : Prop where
  /-- It hears of its own project only. -/
  own : ∀ i, ∀ m ∈ gain cs es n i, m.project = c.project
  /-- It hears what is announced to its project while it is inside, in order, less what finds its queue full. -/
  inOrder : received cs es n = (window cs es c.project n).filter (HasRoom cs es n ·)
  /-- Each time it hears the announcement, and when it enters also who is there. -/
  heard : ∀ i ∈ received cs es n, ∃ m, announced? cs es i = some m ∧
    (gain cs es n i = [m] ∨ es[i]? = some (.register n) ∧
      ∃ users, gain cs es n i = [m, Hub.systemMessage .userJoin c.project (.roster users)])

theorem hears (hp : Proper cs es) (hc : cs[n]? = some c) : Hears cs es n c where
  own i m hm := by
    have hproject : ∀ m, due? cs es c n i = some m → m.project = c.project := by
      intro m hdue
      have hfilter := (Option.filter_eq_some_iff.1 hdue).2
      simp only [Bool.and_eq_true, decide_eq_true_eq] at hfilter
      exact hfilter.2
    rcases gain_cases hp hc i with ⟨hgain, -⟩ | ⟨m', hdue, -, hgain | ⟨-, users, hgain⟩⟩ <;> rw [hgain] at hm
    · cases hm
    · exact List.mem_singleton.1 hm ▸ hproject m' hdue
    · rcases List.mem_cons.1 hm with rfl | hm
      · exact hproject m hdue
      · rw [List.mem_singleton.1 hm]
        rfl
  inOrder := by
    rw [received, window, List.filter_filter]
    refine List.filter_congr fun i _ => ?_
    have hiff : (!(gain cs es n i).isEmpty) = true ↔ (due? cs es c n i).isSome = true ∧ HasRoom cs es n i := by
      rcases gain_cases hp hc i with ⟨hgain, hnot⟩ | ⟨m, hdue, hroom, hgain | ⟨-, users, hgain⟩⟩
      · exact iff_of_false (by simp [hgain]) hnot
      · exact iff_of_true (by simp [hgain]) ⟨by simp [hdue], hroom⟩
      · exact iff_of_true (by simp [hgain]) ⟨by simp [hdue], hroom⟩
    rw [due?_isSome_iff] at hiff
    rw [Bool.eq_iff_iff, hiff, Bool.and_eq_true, decide_eq_true_eq, decide_eq_true_eq, and_comm]
  heard i hi := by
    have hnonempty : gain cs es n i ≠ [] := by simpa using (List.mem_filter.1 hi).2
    rcases gain_cases hp hc i with ⟨hgain, -⟩ | ⟨m, hdue, -, hgain⟩
    · exact absurd hgain hnonempty
    · exact ⟨m, (Option.filter_eq_some_iff.1 hdue).1, hgain⟩

/-- In every history, every room has somebody in it, and only clients of its project. A client hears of its
own project only: the announcements to its room from when it enters until it leaves, in order, less those
that find its queue full. So two clients hear what both of them hear in the same order. There is never a
room to tidy up. -/
theorem rooms_apart_and_agreed (hp : Proper cs es) :
    (∀ r ∈ (after cs es).rooms, r.members ≠ [] ∧ ∀ n ∈ r.members, ∃ c, cs[n]? = some c ∧ c.project = r.project) ∧
    (∀ n c, cs[n]? = some c → Hears cs es n c) ∧
    (∀ a b, (received cs es a).filter (· ∈ received cs es b) = (received cs es b).filter (· ∈ received cs es a)) ∧
    (after cs es).cleanup.rooms = (after cs es).rooms := by
  have hsettled := settled_after hp
  refine ⟨fun r hr => ?_, fun n c hc => hears hp hc, fun a b => ?_, hsettled.occupied.rooms_cleanup⟩
  · obtain ⟨hnonempty, hroom⟩ := hsettled.occupied r hr
    refine ⟨hnonempty, fun n hn => ?_⟩
    rw [← Hub.membersOf_of_room? hroom] at hn
    exact ((hsettled.members r.project n).1 hn).2
  · -- Both are the events in which both hear something.
    rw [received, received, List.filter_filter, List.filter_filter]
    refine List.filter_congr fun i hi => ?_
    rw [Bool.eq_iff_iff]
    simp [List.mem_filter, List.mem_range.1 hi, and_comm]

end Histories

/-- Two clients of one project and one of another. -/
def visitors : List Client :=
  [{ id := "a", user := "ada", username := "Ada", project := "p" },
    { id := "b", user := "bob", username := "Bob", project := "p" },
    { id := "c", user := "cy", username := "Cy", project := "q" }]

/-- They enter, one of them says something, and then leaves. -/
def visit : List HubEvent :=
  [.register 0, .register 2, .register 1, .post (visitors[0].message .chat .nothing), .handOn, .unregister 0]

theorem proper_visit : Proper visitors visit where
  ids := by decide
  opened := by decide
  enterOnce := by decide
  leaveInside past rest n h := by
    rcases past with _ | ⟨a, _ | ⟨b, _ | ⟨c, _ | ⟨d, _ | ⟨e, _ | ⟨f, past⟩⟩⟩⟩⟩⟩ <;> simp [visit] at h
    obtain ⟨rfl, rfl, rfl, rfl, rfl, rfl, -⟩ := h
    decide

/-- The two clients of one project hear when the second of them enters, and what is said, in this order. -/
theorem visitors_hear : received visitors visit 0 = [0, 2, 4] ∧ received visitors visit 1 = [2, 4, 5] ∧
    received visitors visit 2 = [1] ∧ (∀ i, ∀ m ∈ gain visitors visit 2 i, m.project = "q") ∧
    (received visitors visit 0).filter (· ∈ received visitors visit 1) =
      (received visitors visit 1).filter (· ∈ received visitors visit 0) := by
  obtain ⟨-, hhears, hagree, -⟩ := rooms_apart_and_agreed proper_visit
  exact ⟨by decide +kernel, by decide +kernel, by decide +kernel, (hhears 2 visitors[2] rfl).own, hagree 0 1⟩

end Blockwright.Live
