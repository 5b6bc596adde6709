import Blockwright.Proofs.Live.Interleaving
import Blockwright.Proofs.Live.Tasks
/-!
# Nobody uses a closed queue

`Orderly` ties the queues and the rooms to the stages of the readers: a queue of edits is closed
when its reader has stopped, a queue of messages when the hub has taken its client out, and the hub
writes only to clients in their rooms. Every step keeps it, so in any order of steps no closed
queue is used, and none is closed twice.
-/

namespace Blockwright.Live

/-! ## The invariant -/

/-- The rooms hold the clients that are present. -/
structure World.Seated {σ : Type} (w : World σ) : Prop where
  faults : w.hub.faults = []
  ids : w.hub.DistinctIds
  /-- Whoever has not come yet has no stage of their own. -/
  unseen : ∀ n, w.hub.clients.length ≤ n → w.stage n = .arriving
  /-- Only clients that are present are in a room, and it is that of their project. -/
  members : ∀ r ∈ w.hub.rooms, ∀ n ∈ r.members,
    (w.stage n).isPresent = true ∧ ∃ c, w.hub.clients[n]? = some c ∧ c.project = r.project
  /-- Every client that is present is in the room of its project. -/
  housed : ∀ (n : Nat) (c : Client), w.hub.clients[n]? = some c → (w.stage n).isPresent = true →
    ∃ r, w.hub.room? c.project = some r ∧ n ∈ r.members

/-- The tasks of the hub are for clients that are present, and it closes the queue of a client that
it has taken out once. -/
structure World.Tasked {σ : Type} (w : World σ) : Prop where
  sends : ∀ (m : Message) (n : Nat), .send m n ∈ w.tasks → (w.stage n).isPresent = true
  closes : ∀ n, .close n ∈ w.tasks → w.stage n = .gone
  closesOnce : (w.tasks.filterMap Task.closes?).Nodup

/-- The queues of a client are as the stage of its reader and the tasks of the hub say. -/
structure World.Queued {σ : Type} (w : World σ) (n : Nat) (c : Client) : Prop where
  outbox : c.outboxClosed = true ↔ w.stage n = .gone ∧ .close n ∉ w.tasks
  work : c.workClosed = true ↔ (w.stage n).isPast = true
  rested : (w.stage n).isRested = true → c.work = [] ∧ c.current = none

/-- Rooms, tasks and queues are as the stages of the readers say. -/
structure World.Orderly {σ : Type} (w : World σ) : Prop where
  seated : w.Seated
  tasked : w.Tasked
  queued : ∀ (n : Nat) (c : Client), w.hub.clients[n]? = some c → w.Queued n c

namespace World

variable {σ : Type} {w w' : World σ}

theorem Seated.same (h : w.Seated) (hs : w.hub.SameSeats w'.hub)
    (hpresent : ∀ n, (w'.stage n).isPresent = (w.stage n).isPresent)
    (hunseen : ∀ n, w.hub.clients.length ≤ n → w'.stage n = w.stage n) : w'.Seated where
  faults := hs.faults.trans h.faults
  ids n k c' d' hc' hd' he := by
    obtain ⟨c, hc, hcid, -⟩ := hs.clients n c' hc'
    obtain ⟨d, hd, hdid, -⟩ := hs.clients k d' hd'
    exact h.ids n k c d hc hd (hcid.symm.trans (he.trans hdid))
  unseen n hn := by
    rw [hs.length] at hn
    exact (hunseen n hn).trans (h.unseen n hn)
  members r hr n hn := by
    rw [hs.rooms] at hr
    obtain ⟨hp, c, hc, hproject⟩ := h.members r hr n hn
    have hlt : n < w'.hub.clients.length := hs.length ▸ (List.getElem?_eq_some_iff.1 hc).1
    obtain ⟨d, hd, -, hdp⟩ := hs.clients n _ (List.getElem?_eq_getElem hlt)
    rw [hc] at hd
    cases hd
    exact ⟨(hpresent n).trans hp, _, List.getElem?_eq_getElem hlt, hdp.trans hproject⟩
  housed n c' hc' hp := by
    obtain ⟨c, hc, -, hcp⟩ := hs.clients n c' hc'
    obtain ⟨r, hr, hm⟩ := h.housed n c hc ((hpresent n).symm.trans hp)
    refine ⟨r, ?_, hm⟩
    rw [hcp, Hub.room?, hs.rooms]
    exact hr

theorem Seated.stage_lt (h : w.Seated) {n : Nat} (hs : w.stage n ≠ .arriving) : n < w.hub.clients.length :=
  Nat.lt_of_not_le fun hle => hs (h.unseen n hle)

/-- A client whose reader has started is there. -/
theorem Seated.client (h : w.Seated) {n : Nat} (hs : w.stage n ≠ .arriving) : ∃ c, w.hub.clients[n]? = some c :=
  ⟨_, List.getElem?_eq_getElem (h.stage_lt hs)⟩

theorem Queued.outbox_open {n : Nat} {c : Client} (h : w.Queued n c) (hs : w.stage n ≠ .gone) :
    c.outboxClosed = false :=
  Bool.eq_false_iff.2 fun hclosed => hs (h.outbox.1 hclosed).1

theorem Queued.work_open {n : Nat} {c : Client} (h : w.Queued n c) (hs : (w.stage n).isPast = false) :
    c.workClosed = false :=
  Bool.eq_false_iff.2 fun hclosed => by rw [h.work.1 hclosed] at hs; cases hs

theorem Queued.congr {n : Nat} {c : Client} (h : w.Queued n c)
    (hgone : (w'.stage n = .gone ∧ .close n ∉ w'.tasks) ↔ (w.stage n = .gone ∧ .close n ∉ w.tasks))
    (hpast : (w'.stage n).isPast = (w.stage n).isPast)
    (hrested : (w'.stage n).isRested = true → (w.stage n).isRested = true) : w'.Queued n c where
  outbox := h.outbox.trans hgone.symm
  work := by rw [hpast]; exact h.work
  rested hr := h.rested (hrested hr)

theorem Queued.steady {n : Nat} {c c' : Client} (h : w.Queued n c) (hc : c.Steady c')
    (hstage : w'.stage n = w.stage n) (htasks : .close n ∈ w'.tasks ↔ .close n ∈ w.tasks) : w'.Queued n c' where
  outbox := by rw [hc.outboxClosed, hstage, htasks]; exact h.outbox
  work := by rw [hc.workClosed, hstage]; exact h.work
  rested hr := by
    rw [hstage] at hr
    have hpast : (w.stage n).isPast = true := by
      revert hr
      cases w.stage n <;> decide
    exact hc.rested (h.work.2 hpast) (h.rested hr)

namespace Orderly

/-- A steady step keeps the order. -/
theorem steady (h : w.Orderly) (hs : w.hub.Steady w'.hub) (hstage : w'.stage = w.stage)
    (htasks : w'.tasks = w.tasks) : w'.Orderly where
  seated := h.seated.same hs.sameSeats (by simp [hstage]) (by simp [hstage])
  tasked := by
    refine ⟨?_, ?_, ?_⟩
    · rw [htasks, hstage]; exact h.tasked.sends
    · rw [htasks, hstage]; exact h.tasked.closes
    · rw [htasks]; exact h.tasked.closesOnce
  queued n c' hc' := by
    obtain ⟨c, hc, hcs⟩ := hs.clients n c' hc'
    exact (h.queued n c hc).steady hcs (by rw [hstage]) (by rw [htasks])

/-! ## Tasks -/

theorem doSend (h : w.Orderly) {m : Message} {k : Nat} {ts : List Task} (ht : w.tasks = .send m k :: ts) :
    ({ w.onHub (·.send m k) with tasks := ts } : World σ).Orderly := by
  have hp : (w.stage k).isPresent = true := h.tasked.sends m k (by rw [ht]; exact List.mem_cons_self)
  obtain ⟨c, hc⟩ := h.seated.client (n := k) (by intro hs; rw [hs] at hp; cases hp)
  have ho : c.outboxClosed = false := (h.queued k c hc).outbox_open (by intro hs; rw [hs] at hp; cases hp)
  have hs : w.hub.Steady (w.hub.send m k) := Hub.steady_send hc ho m
  refine ⟨h.seated.same hs.sameSeats (fun _ => rfl) (fun _ _ => rfl), ⟨fun m n hm => ?_, fun n hm => ?_, ?_⟩,
    fun n c' hc' => ?_⟩
  · exact h.tasked.sends m n (by rw [ht]; exact List.mem_cons_of_mem _ hm)
  · exact h.tasked.closes n (by rw [ht]; exact List.mem_cons_of_mem _ hm)
  · have honce := h.tasked.closesOnce
    rw [ht] at honce
    exact honce
  · obtain ⟨c, hc, hcs⟩ := hs.clients n c' hc'
    exact (h.queued n c hc).steady hcs rfl (by rw [ht]; simp)

theorem doClose (h : w.Orderly) {k : Nat} {ts : List Task} (ht : w.tasks = .close k :: ts) :
    ({ w.onHub (·.closeOutbox k) with tasks := ts } : World σ).Orderly := by
  have hgone : w.stage k = .gone := h.tasked.closes k (by rw [ht]; exact List.mem_cons_self)
  obtain ⟨c, hc⟩ := h.seated.client (n := k) (by rw [hgone]; decide)
  have honce := h.tasked.closesOnce
  rw [ht, List.filterMap_cons_some (f := Task.closes?) (b := k) rfl, List.nodup_cons] at honce
  have hlast : .close k ∉ ts := fun hm => honce.1 (List.mem_filterMap.2 ⟨_, hm, rfl⟩)
  have hopen : c.outboxClosed = false := Bool.eq_false_iff.2 fun hclosed =>
    ((h.queued k c hc).outbox.1 hclosed).2 (by rw [ht]; exact List.mem_cons_self)
  have hclose : (w.onHub (·.closeOutbox k)).hub = w.hub.modify k ({ · with outboxClosed := true }) := by
    simp only [onHub, hub, Sessions.onHub, Hub.closeOutbox] at hc ⊢
    simp [hc, hopen]
  refine ⟨h.seated.same ?_ (fun _ => rfl) (fun _ _ => rfl), ⟨fun m n hm => ?_, fun n hm => ?_, honce.2⟩,
    fun n c' hc' => ?_⟩
  · change w.hub.SameSeats (w.onHub (·.closeOutbox k)).hub
    rw [hclose]
    exact Hub.sameSeats_modify w.hub k fun _ => ⟨rfl, rfl⟩
  · exact h.tasked.sends m n (by rw [ht]; exact List.mem_cons_of_mem _ hm)
  · exact h.tasked.closes n (by rw [ht]; exact List.mem_cons_of_mem _ hm)
  · change (w.onHub (·.closeOutbox k)).hub.clients[n]? = some c' at hc'
    rw [hclose] at hc'
    obtain ⟨d, hd, ⟨rfl, rfl⟩ | ⟨hne, rfl⟩⟩ := Hub.getElem?_modify_cases hc'
    · exact ⟨iff_of_true rfl ⟨hgone, hlast⟩, (h.queued k d hd).work, (h.queued k d hd).rested⟩
    · exact (h.queued n c' hd).steady (.refl c') rfl (by rw [ht]; simp [Ne.symm hne])

/-! ## Events of the hub -/

/-- A client that comes has open queues and no stage of its own yet. -/
theorem come (h : w.Orderly) {c : Client} (hout : c.outboxClosed = false) (hwork : c.workClosed = false)
    (hid : ∀ d ∈ w.hub.clients, d.id ≠ c.id) : (w.onHub fun h => (h.add c).2).Orderly := by
  have hnew : w.stage w.hub.clients.length = .arriving := h.seated.unseen _ (Nat.le_refl _)
  have hcases : ∀ n d, (w.hub.clients ++ [c])[n]? = some d →
      w.hub.clients[n]? = some d ∨ n = w.hub.clients.length ∧ d = c := by
    intro n d hd
    rcases Nat.lt_trichotomy n w.hub.clients.length with hlt | rfl | hgt
    · exact .inl (List.getElem?_append_left hlt ▸ hd)
    · rw [List.getElem?_concat_length] at hd
      exact .inr ⟨rfl, (Option.some.inj hd).symm⟩
    · rw [List.getElem?_eq_none (by rw [List.length_append]; exact hgt)] at hd
      cases hd
  refine ⟨⟨h.seated.faults, fun n k d e hd he heq => ?_, fun n hn => ?_, fun r hr n hn => ?_, fun n d hd hp => ?_⟩,
    ⟨h.tasked.sends, h.tasked.closes, h.tasked.closesOnce⟩, fun n d hd => ?_⟩
  · rcases hcases n d hd with hold | ⟨rfl, hdc⟩ <;> rcases hcases k e he with hold' | ⟨rfl, hec⟩
    · exact h.seated.ids n k d e hold hold' heq
    · exact absurd (heq.trans (congrArg _ hec)) (hid d (List.mem_of_getElem? hold))
    · exact absurd (heq.symm.trans (congrArg _ hdc)) (hid e (List.mem_of_getElem? hold'))
    · rfl
  · have hlen : w.hub.clients.length + 1 ≤ n := by simpa [onHub, hub, Sessions.onHub, Hub.add] using hn
    exact h.seated.unseen n (by omega)
  · obtain ⟨hp, d, hd, hproject⟩ := h.seated.members r hr n hn
    exact ⟨hp, d, (List.getElem?_append_left (List.getElem?_eq_some_iff.1 hd).1).trans hd, hproject⟩
  · rcases hcases n d hd with hd | ⟨rfl, rfl⟩
    · exact h.seated.housed n d hd hp
    · rw [show (w.onHub _).stage _ = _ from hnew] at hp
      cases hp
  · rcases hcases n d hd with hd | ⟨rfl, rfl⟩
    · exact (h.queued n d hd).steady (.refl d) rfl Iff.rfl
    · refine ⟨iff_of_false (by simp [hout]) ?_, iff_of_false (by simp [hwork]) ?_, ?_⟩ <;>
        rw [show (w.onHub _).stage _ = _ from hnew] <;> simp [Stage.isPast, Stage.isRested]

/-- The hub starts on an event that moves one client and leaves the others where they are. -/
theorem move (h : w.Orderly) {n : Nat} {s : Stage} (hidle : w.tasks = []) (hn : n < w.hub.clients.length)
    (hstage : w'.stage = Function.update w.stage n s) (hclients : w'.hub.clients = w.hub.clients)
    (hfaults : w'.hub.faults = w.hub.faults)
    (hmembers : ∀ r ∈ w'.hub.rooms, ∀ k ∈ r.members,
      (w'.stage k).isPresent = true ∧ ∃ c, w.hub.clients[k]? = some c ∧ c.project = r.project)
    (hhoused : ∀ (k : Nat) (c : Client), w.hub.clients[k]? = some c → (w'.stage k).isPresent = true →
      ∃ r, w'.hub.room? c.project = some r ∧ k ∈ r.members)
    (htasked : w'.Tasked) (hclose : ∀ k, k ≠ n → .close k ∉ w'.tasks)
    (hqueued : ∀ c, w.hub.clients[n]? = some c → w'.Queued n c) : w'.Orderly where
  seated := by
    refine ⟨hfaults.trans h.seated.faults, ?_, ?_, ?_, ?_⟩
    · rw [Hub.DistinctIds, hclients]
      exact h.seated.ids
    · intro k hk
      rw [hclients] at hk
      rw [hstage, Function.update_of_ne (by omega)]
      exact h.seated.unseen k hk
    · rw [hclients]
      exact hmembers
    · rw [hclients]
      exact hhoused
  tasked := htasked
  queued k c hc := by
    rw [hclients] at hc
    by_cases hk : k = n
    · exact hk ▸ hqueued c (hk ▸ hc)
    · refine (h.queued k c hc).steady (.refl c) (by rw [hstage, Function.update_of_ne hk]) ?_
      simp [hidle, hclose k hk]

/-- A client that enters is put in its room, where the others stay. -/
theorem takeIn (h : w.Orderly) {n : Nat} (hn : n < w.hub.clients.length) (hs : w.stage n = .arriving)
    (hidle : w.tasks = []) : ((w.begin (·.startRegister n)).setStage n .reading).Orderly := by
  obtain ⟨c, hc⟩ : ∃ c, w.hub.clients[n]? = some c := ⟨_, List.getElem?_eq_getElem hn⟩
  generalize hw' : (w.begin (·.startRegister n)).setStage n .reading = w'
  have hstage : w'.stage = Function.update w.stage n .reading := by rw [← hw']; rfl
  have hstart : w.hub.startRegister n = (w'.hub, w'.tasks) := by rw [← hw']; rfl
  rw [Hub.startRegister, hc] at hstart
  obtain ⟨hhub, htasks⟩ := Prod.mk.inj hstart
  have hkept : ∀ k, k ≠ n → w'.stage k = w.stage k := fun k hk => by rw [hstage, Function.update_of_ne hk]
  have hentered : w'.stage n = .reading := by rw [hstage, Function.update_self]
  -- whoever was in a room is another client
  have hstay : ∀ k, (w.stage k).isPresent = true → (w'.stage k).isPresent = true := by
    intro k hk
    rwa [hkept k (by rintro rfl; rw [hs] at hk; cases hk)]
  have hpresent : ∀ k ∈ w.hub.othersIn c.project c.id ++ [n],
      (w'.stage k).isPresent = true ∧ ∃ d, w.hub.clients[k]? = some d ∧ d.project = c.project := by
    intro k hk
    rcases List.mem_append.1 hk with hk | hk
    · rw [Hub.othersIn, List.mem_filter] at hk
      cases hr : w.hub.room? c.project with
      | none => simp [hr] at hk
      | some r =>
        obtain ⟨hp, d, hd, hproject⟩ := h.seated.members r (Hub.mem_of_room? hr).1 k (by simpa [hr] using hk.1)
        exact ⟨hstay k hp, d, hd, hproject.trans (Hub.mem_of_room? hr).2⟩
    · obtain rfl := List.mem_singleton.1 hk
      exact ⟨by rw [hentered]; rfl, c, hc, rfl⟩
  have hnoclose : ∀ k, Task.close k ∉ w'.tasks := fun k => by rw [← htasks]; simp
  refine h.move hidle hn hstage (by rw [← hhub, Hub.clients_putRoom]) (by rw [← hhub, Hub.faults_putRoom])
    (fun r hr k hk => ?_) (fun k d hd hp => ?_) ⟨fun m k hm => ?_, fun k hm => absurd hm (hnoclose k), ?_⟩
    (fun k _ => hnoclose k) (fun d hd => (h.queued n d hd).congr ?_ ?_ ?_)
  · rw [← hhub] at hr
    rcases Hub.mem_putRoom hr with rfl | ⟨hr, -⟩
    · exact hpresent k hk
    · exact (h.seated.members r hr k hk).imp_left (hstay k)
  · rw [← hhub, Hub.room?_putRoom]
    by_cases hk : k = n
    · subst hk
      rw [hc] at hd
      cases hd
      exact ⟨_, if_pos rfl, by simp⟩
    · rw [hkept k hk] at hp
      obtain ⟨r, hr, hm⟩ := h.seated.housed k d hd hp
      split
      · rename_i hproject
        refine ⟨_, rfl, List.mem_append_left _ ?_⟩
        rw [Hub.othersIn, Hub.mem_filter_hasId h.seated.ids hc hd]
        rw [hproject] at hr
        exact ⟨by simpa [hr] using hm, hk⟩
      · exact ⟨r, hr, hm⟩
  · rw [← htasks] at hm
    simp only [List.mem_append, List.mem_map, List.mem_singleton, Task.send.injEq] at hm
    rcases hm with ⟨j, hj, -, rfl⟩ | ⟨-, rfl⟩
    · exact (hpresent j (List.mem_append.2 (hj.imp_right List.mem_singleton.2))).1
    · rw [hentered]; rfl
  · rw [← htasks, List.filterMap_append, Task.closes_sends]
    exact List.nodup_nil
  all_goals simp [hentered, hs, Stage.isPast, Stage.isRested]

/-- A client that leaves is taken from its room, and the hub is to close its queue. -/
theorem takeOut (h : w.Orderly) {n : Nat} (hs : w.stage n = .parting) (hidle : w.tasks = []) :
    ((w.begin (·.startUnregister n)).setStage n .gone).Orderly := by
  obtain ⟨c, hc⟩ := h.seated.client (n := n) (by rw [hs]; decide)
  obtain ⟨r, hr, hmem⟩ := h.seated.housed n c hc (by rw [hs]; rfl)
  obtain ⟨hroom, hproject⟩ := Hub.mem_of_room? hr
  generalize hw' : (w.begin (·.startUnregister n)).setStage n .gone = w'
  have hstage : w'.stage = Function.update w.stage n .gone := by rw [← hw']; rfl
  have hstart : w.hub.startUnregister n = (w'.hub, w'.tasks) := by rw [← hw']; rfl
  rw [Hub.startUnregister_of_member hc hr hmem] at hstart
  have hrest : ∀ k d, w.hub.clients[k]? = some d →
      (k ∈ r.members.filter (fun k => !w.hub.hasId c.id k) ↔ k ∈ r.members ∧ k ≠ n) :=
    fun k d hd => Hub.mem_filter_hasId h.seated.ids hc hd
  have hsub : ∀ k ∈ r.members.filter (fun k => !w.hub.hasId c.id k), k ∈ r.members :=
    fun k hk => (List.mem_filter.1 hk).1
  generalize r.members.filter (fun k => !w.hub.hasId c.id k) = rest at hrest hsub hstart
  obtain ⟨hhub, htasks⟩ := Prod.mk.inj hstart
  have hkept : ∀ k, k ≠ n → w'.stage k = w.stage k := fun k hk => by rw [hstage, Function.update_of_ne hk]
  have hleft : w'.stage n = .gone := by rw [hstage, Function.update_self]
  have hpresent : ∀ k ∈ rest, (w'.stage k).isPresent = true ∧ ∃ d, w.hub.clients[k]? = some d ∧ d.project = r.project := by
    intro k hk
    obtain ⟨hp, d, hd, hdp⟩ := h.seated.members r hroom k (hsub k hk)
    rw [hkept k ((hrest k d hd).1 hk).2]
    exact ⟨hp, d, hd, hdp⟩
  have hclose : ∀ k, .close k ∈ w'.tasks ↔ k = n := fun k => by rw [← htasks]; simp
  refine h.move hidle (List.getElem?_eq_some_iff.1 hc).1 hstage (by rw [← hhub, Hub.clients_keepRoom])
    (by rw [← hhub, Hub.faults_keepRoom]) (fun r' hr' k hk => ?_) (fun k d hd hp => ?_)
    ⟨fun m k hm => ?_, fun k hm => (hclose k).1 hm ▸ hleft, ?_⟩ (fun k hk hm => hk ((hclose k).1 hm))
    (fun d hd => ⟨iff_of_false ?_ ?_, ?_, fun _ => (h.queued n d hd).rested (by rw [hs]; rfl)⟩)
  · rw [← hhub] at hr'
    obtain ⟨rfl, -⟩ | ⟨hold, hne⟩ := Hub.mem_keepRoom hr'
    · exact hpresent k hk
    · obtain ⟨hp, d, hd, hdp⟩ := h.seated.members r' hold k hk
      -- the client itself is in no other room
      have hkn : k ≠ n := by
        rintro rfl
        rw [hc] at hd
        cases hd
        exact hne (hdp.symm.trans hproject.symm)
      rw [hkept k hkn]
      exact ⟨hp, d, hd, hdp⟩
  · have hkn : k ≠ n := by
      rintro rfl
      rw [hleft] at hp
      cases hp
    rw [hkept k hkn] at hp
    obtain ⟨r', hr', hm⟩ := h.seated.housed k d hd hp
    rw [← hhub, Hub.room?_keepRoom]
    by_cases hdp : d.project = r.project
    · rw [hdp, hproject, hr] at hr'
      cases hr'
      have hin : k ∈ rest := (hrest k d hd).2 ⟨hm, hkn⟩
      refine ⟨{ r with members := rest }, ?_, hin⟩
      rw [if_pos hdp, if_neg (by simpa using List.ne_nil_of_mem hin)]
    · exact ⟨r', by rw [if_neg hdp, hr'], hm⟩
  · rw [← htasks] at hm
    simp only [List.mem_append, List.mem_map, List.mem_singleton, Task.send.injEq, reduceCtorEq, or_false] at hm
    obtain ⟨j, hj, -, rfl⟩ := hm
    exact (hpresent j hj).1
  · rw [← htasks, List.filterMap_append, Task.closes_sends]
    simp [Task.closes?]
  · simp [(h.queued n d hd).outbox_open (by rw [hs]; decide)]
  · exact fun hg => hg.2 ((hclose n).2 rfl)
  · rw [(h.queued n d hd).work, hs, hleft]
    exact Iff.rfl

/-- The oldest message that waits is for the clients in a room. -/
theorem handOn (h : w.Orderly) (hidle : w.tasks = []) : (w.begin (·.startBroadcast)).Orderly := by
  generalize hw' : w.begin (·.startBroadcast) = w'
  have hstage : w'.stage = w.stage := by rw [← hw']; rfl
  have hstart : w.hub.startBroadcast = (w'.hub, w'.tasks) := by rw [← hw']; rfl
  rw [Hub.startBroadcast] at hstart
  cases hq : w.hub.queue with
  | nil =>
    rw [hq] at hstart
    obtain ⟨hhub, htasks⟩ := Prod.mk.inj hstart
    exact h.steady (by rw [← hhub]; exact .refl _) hstage (by rw [← htasks, hidle])
  | cons m rest =>
    rw [hq] at hstart
    obtain ⟨hhub, htasks⟩ := Prod.mk.inj hstart
    have hs : w.hub.Steady w'.hub := by
      rw [← hhub]
      exact ⟨rfl, rfl, rfl, fun _ c' hc' => ⟨c', hc', .refl c'⟩⟩
    have hnoclose : ∀ k, Task.close k ∉ w'.tasks := fun k => by rw [← htasks]; simp
    refine ⟨h.seated.same hs.sameSeats (by simp [hstage]) (by simp [hstage]),
      ⟨fun m k hm => ?_, fun k hm => absurd hm (hnoclose k), ?_⟩, fun k c' hc' => ?_⟩
    · rw [← htasks, List.mem_map] at hm
      obtain ⟨j, hj, he⟩ := hm
      cases he
      rw [hstage]
      cases hr : w.hub.room? m.project with
      | none => simp [hr] at hj
      | some r => exact (h.seated.members r (Hub.mem_of_room? hr).1 k (by simpa [hr] using hj)).1
    · rw [← htasks, Task.closes_sends]
      exact List.nodup_nil
    · obtain ⟨c, hc, hcs⟩ := hs.clients k c' hc'
      exact (h.queued k c hc).steady hcs (by rw [hstage]) (by simp [hidle, hnoclose k])

/-- Empty rooms hold nobody that is present. -/
theorem tidyRooms (h : w.Orderly) : (w.onHub (·.cleanup)).Orderly where
  seated := by
    refine ⟨h.seated.faults, h.seated.ids, h.seated.unseen, fun r hr => ?_, fun n c hc hp => ?_⟩
    · exact h.seated.members r (List.mem_filter.1 hr).1
    · obtain ⟨r, hr, hm⟩ := h.seated.housed n c hc hp
      exact ⟨r, Hub.room?_cleanup hr (List.ne_nil_of_mem hm), hm⟩
  tasked := ⟨h.tasked.sends, h.tasked.closes, h.tasked.closesOnce⟩
  queued n c hc := (h.queued n c hc).steady (.refl c) rfl Iff.rfl

/-! ## Steps of readers and workers -/

theorem readFrame (h : w.Orderly) {n : Nat} (hs : w.stage n = .reading) (bytes : Bytes) :
    (w.onHub (·.receive n bytes)).Orderly := by
  obtain ⟨c, hc⟩ := h.seated.client (n := n) (by rw [hs]; decide)
  have hq := h.queued n c hc
  exact h.steady (Hub.steady_receive hc (hq.outbox_open (by rw [hs]; decide)) (hq.work_open (by rw [hs]; rfl)) bytes)
    rfl rfl

/-- The reader of a client that is present comes to another stage, and stays present. -/
theorem advance (h : w.Orderly) {n : Nat} {s : Stage} {f : Client → Client} (hp : (w.stage n).isPresent = true)
    (hp' : s.isPresent = true) (hstage : w'.stage = Function.update w.stage n s) (htasks : w'.tasks = w.tasks)
    (hhub : w'.hub = w.hub.modify n f) (hf : ∀ c, (f c).id = c.id ∧ (f c).project = c.project)
    (hqueued : ∀ c, w.hub.clients[n]? = some c → w'.Queued n (f c)) : w'.Orderly := by
  have hkept : ∀ k, k ≠ n → w'.stage k = w.stage k := fun k hk => by rw [hstage, Function.update_of_ne hk]
  have hpresent : ∀ k, (w'.stage k).isPresent = (w.stage k).isPresent := by
    intro k
    by_cases hk : k = n
    · rw [hk, hstage, Function.update_self, hp, hp']
    · rw [hkept k hk]
  have hn : n < w.hub.clients.length := h.seated.stage_lt (by intro hs; rw [hs] at hp; cases hp)
  refine ⟨h.seated.same ?_ hpresent fun k hk => hkept k (by omega), ⟨fun m k hm => ?_, fun k hm => ?_, ?_⟩,
    fun k c' hc' => ?_⟩
  · rw [hhub]
    exact Hub.sameSeats_modify w.hub n hf
  · rw [hpresent]
    exact h.tasked.sends m k (htasks ▸ hm)
  · have hgone := h.tasked.closes k (htasks ▸ hm)
    rwa [hkept k (by rintro rfl; rw [hgone] at hp; cases hp)]
  · rw [htasks]
    exact h.tasked.closesOnce
  · rw [hhub] at hc'
    obtain ⟨c, hc, ⟨rfl, rfl⟩ | ⟨hne, rfl⟩⟩ := Hub.getElem?_modify_cases hc'
    · exact hqueued c hc
    · exact (h.queued k c' hc).steady (.refl c') (hkept k (Ne.symm hne)) (by rw [htasks])

theorem stopReading (h : w.Orderly) {n : Nat} (hs : w.stage n = .reading) :
    ((w.onHub (·.closeWork n)).setStage n .ending).Orderly := by
  obtain ⟨c, hc⟩ := h.seated.client (n := n) (by rw [hs]; decide)
  have hopen : c.workClosed = false := (h.queued n c hc).work_open (by rw [hs]; rfl)
  have hclose : w.hub.closeWork n = w.hub.modify n ({ · with workClosed := true }) := by
    rw [Hub.closeWork, hc]
    simp [hopen]
  refine h.advance (f := ({ · with workClosed := true })) (by rw [hs]; rfl) (s := .ending) rfl rfl rfl hclose
    (fun _ => ⟨rfl, rfl⟩) fun d hd => ⟨?_, ?_, ?_⟩
  · exact iff_of_false (by simp [(h.queued n d hd).outbox_open (by rw [hs]; decide)]) (by simp [setStage])
  · exact iff_of_true rfl (by simp [setStage, Stage.isPast])
  · simp [setStage, Stage.isRested]

theorem stopWaiting (h : w.Orderly) {n : Nat} (hs : w.stage n = .ending)
    (hdone : ∀ c, w.hub.clients[n]? = some c → c.work = [] ∧ c.current = none) :
    (w.setStage n .parting).Orderly := by
  refine h.advance (f := id) (by rw [hs]; rfl) (s := .parting) rfl rfl rfl (by simp [Hub.modify]; rfl)
    (fun _ => ⟨rfl, rfl⟩) fun d hd => ⟨?_, ?_, fun _ => hdone d hd⟩
  · exact iff_of_false (by simp [(h.queued n d hd).outbox_open (by rw [hs]; decide)]) (by simp [setStage])
  · exact iff_of_true ((h.queued n d hd).work.2 (by rw [hs]; rfl)) (by simp [setStage, Stage.isPast])

/-- A worker that has an edit in hand has a client whose queue is open. -/
theorem endEdit (h : w.Orderly) (p : Processor σ) (n : Nat) :
    ({ w with sessions := w.sessions.finishWork p n } : World σ).Orderly := by
  refine h.steady (Sessions.steady_finishWork p fun c hc hcur => ?_) rfl rfl
  refine (h.queued n c hc).outbox_open fun hgone => hcur ?_
  exact ((h.queued n c hc).rested (by rw [hgone]; rfl)).2

end Orderly

/-! ## Every run -/

theorem orderly_start (cache : Cache) (store : σ) : ({ sessions := { cache, store } } : World σ).Orderly where
  seated := ⟨rfl, by simp [hub, Hub.DistinctIds], fun _ _ => rfl, by simp [hub], by simp [hub]⟩
  tasked := ⟨by simp, by simp, by simp⟩
  queued := by simp [hub]

/-- Every step keeps the order. -/
theorem Orderly.step {p : Processor σ} (h : w.Orderly) (hstep : Step p w w') : w'.Orderly := by
  cases hstep with
  | come id user username project processes hid => exact h.come rfl rfl hid
  | takeIn n hn hs hidle => exact h.takeIn hn hs hidle
  | takeOut n hs hidle => exact h.takeOut hs hidle
  | handOn hidle => exact h.handOn hidle
  | tidyRooms hidle => exact h.tidyRooms
  | doTask t ts ht =>
    cases t with
    | send m n => exact h.doSend ht
    | close n => exact h.doClose ht
  | readFrame n bytes hs => exact h.readFrame hs bytes
  | stopReading n hs => exact h.stopReading hs
  | stopWaiting n hs hdone => exact h.stopWaiting hs hdone
  | takeEdit n => exact h.steady (Hub.steady_takeWork w.hub n) rfl rfl
  | endEdit n => exact h.endEdit p n
  | write n count =>
    exact h.steady (Hub.steady_modify fun c _ => ⟨rfl, rfl, rfl, rfl, fun _ hr => hr⟩) rfl rfl
  | deliver project e => exact h.steady (Hub.steady_deliver w.hub project e) rfl rfl
  | elsewhere cache store => exact h.steady (.refl w.hub) rfl rfl

theorem orderly_of_reachable {p : Processor σ} (h : Reachable p w) : w.Orderly := by
  induction h with
  | start cache store => exact orderly_start cache store
  | step _ hstep ih => exact ih.step hstep

/-- Wherever any order of steps leads, no closed queue has been used and none has been closed
twice. A client's queue of edits is closed when its reader has stopped, and its queue of messages
when the hub has taken the client out and is through with it. -/
theorem queues_used_while_open {p : Processor σ} (h : Reachable p w) :
    w.hub.faults = [] ∧ ∀ (n : Nat) (c : Client), w.hub.clients[n]? = some c →
      (c.workClosed = true ↔ (w.stage n).isPast = true) ∧
      (c.outboxClosed = true ↔ w.stage n = .gone ∧ .close n ∉ w.tasks) := by
  have ho := orderly_of_reachable h
  exact ⟨ho.seated.faults, fun n c hc => ⟨(ho.queued n c hc).work, (ho.queued n c hc).outbox⟩⟩

/-- One of two clients leaves while the other is still being told that it came. -/
theorem queues_used_while_leaving :
    ∃ w : World Unit, Reachable {} w ∧ w.stage 0 = .gone ∧ w.stage 1 = .reading ∧
      w.hub.clients.map (·.outboxClosed) = [true, false] ∧ w.hub.clients.map (·.outbox.length) = [4, 3] ∧
      w.hub.faults = [] := by
  have h := Reachable.start (p := ({} : Processor Unit)) .off ()
  replace h := h.step (.come "a" "ada" "Ada" "p" true (by simp [hub]))
  replace h := h.step (.come "b" "bob" "Bob" "p" true (by simp [hub, onHub, Sessions.onHub, Hub.add]))
  replace h := h.step (.takeIn 0 (by decide) rfl rfl)
  replace h := h.step (.doTask _ _ rfl)
  replace h := h.step (.doTask _ _ rfl)
  replace h := h.step (.takeIn 1 (by decide) rfl rfl)
  replace h := h.step (.doTask _ _ rfl)
  replace h := h.step (.readFrame 0 [] rfl)
  replace h := h.step (.doTask _ _ rfl)
  replace h := h.step (.stopReading 0 rfl)
  replace h := h.step (.doTask _ _ rfl)
  replace h := h.step (.stopWaiting 0 rfl (by intro c hc; cases hc; exact ⟨rfl, rfl⟩))
  replace h := h.step (.takeOut 0 rfl rfl)
  replace h := h.step (.doTask _ _ rfl)
  replace h := h.step (.doTask _ _ rfl)
  exact ⟨_, h, rfl, rfl, rfl, rfl, (queues_used_while_open h).1⟩

end World
end Blockwright.Live
