import Blockwright.Http.Site
import Blockwright.Live.Session
import Blockwright.Proofs.Attempts
import Blockwright.Proofs.Project.Deeds
import Mathlib.Logic.Relation
/-!
# What users are answered, and where the tables can come to

Whatever a user asks for comes down to one deed on the tables, and a request about projects is
answered with projects and generations of that user, or with a refusal that holds no row. The tables start
empty. After that installations serve requests, and the edits of live sessions are saved in any order.
Whatever happens, ids stay distinct and no row ever gets another owner. A session changes the store only
where the document of an edit is saved, so what saving keeps true of the store stays true whatever
clients send.
-/

/-! ## What users are answered about projects -/

namespace Blockwright.Http

/-! ## Requests about projects -/

/-- Whether a route is about projects in the tables. -/
def Route.isOfProjects : Route → Bool
  | .listProjects | .createProject | .showProject _ | .updateProject _ | .deleteProject _ | .runProject _
  | .generations _ => true
  | _ => false

/-- Whether the path of a request leads to the projects, which need not have a route for it. -/
def Request.isToProjects (r : Request) : Bool :=
  (Route.pieces? r.path).bind (fun path => (path.map (·.text)).head?) = some "projects"

theorem Request.isOfProjects_of_route {r : Request} (h : r.isToProjects = true) {route : Route}
    (hroute : Route.of? r.method r.path = some route) : route.isOfProjects = true := by
  obtain ⟨path, hpath, hbelow⟩ := Option.bind_eq_some_iff.1 hroute
  have hhead := of_decide_eq_true h
  rw [hpath, Option.bind_some] at hhead
  unfold Route.below? at hbelow
  split at hbelow <;> grind [Route.isOfProjects]

/-- What a user may be answered about projects, by the tables behind the request. What the messages of
refusals say is left open. -/
inductive Answers (user : String) (s : Store) (r : Request) : Response → Prop
  | project (status : Nat) {p : Project} (own : s.Holds user p) :
    Answers user s r { status, content := .json (projectJson p) }
  | projects {ps : List Project} (own : ∀ p ∈ ps, ∃ q, s.Holds user q ∧ p = { q with document := none }) :
    Answers user s r (.found (.array (ps.map projectJson)))
  | generation {g : Generation} (known : g ∈ s.generations) (own : s.Owns user g.project) :
    Answers user s r (.found (generationJson g))
  | rejected (message : String) {g : Generation} (known : g ∈ s.generations) (own : s.Owns user g.project) :
    Answers user s r (.refused 422 message (generationJson g))
  | generations {gs : List Generation} (own : ∀ g ∈ gs, g ∈ s.generations ∧ s.Owns user g.project) :
    Answers user s r (.found (.array (gs.map generationJson)))
  | deleted : Answers user s r { status := 204 }
  | refused (status : Nat) (message : String) : Answers user s r (.refused status message)
  | missing : Answers user s r (Route.missing r)

/-- A response without any row. -/
def Response.IsRefusal (response : Response) : Prop := ∃ status message, response = .refused status message

theorem isRefusal_projectRefused (action : String) (e : ProjectError) : (projectRefused action e).IsRefusal := by
  cases e <;> exact ⟨_, _, rfl⟩

/-! ## Serving -/

section Serving

variable {s : Sessions} {user : String}

theorem yields_form {α : Type} (x : Except FormError α) :
    Yields (fun _ => True) Response.IsRefusal (x.mapError badForm) :=
  Yields.anyway.mapError fun _ _ => ⟨_, _, rfl⟩

theorem yields_idOf (id : RawText) : Yields (fun _ => True) Response.IsRefusal (idOf id) :=
  Yields.anyway.mapError fun _ _ => ⟨_, _, rfl⟩

theorem yields_project {α : Type} {good : α → Prop} {x : Except ProjectError α} (action : String)
    (h : Yields good (fun _ => True) x) : Yields good Response.IsRefusal (x.mapError (projectRefused action)) :=
  h.mapError fun e _ => isRefusal_projectRefused action e

/-- What was served to a user about projects: one deed, and an answer of its own. -/
def Served.IsOwn (user : String) (s : Store) (r : Request) (served : Served) : Prop :=
  s.Deed user served.sessions.store ∧ Answers user served.sessions.store r served.response

theorem yields_serve_projects (t : Site) (fresh : ProjectId) (hids : s.store.DistinctIds) (c : Caller) (r : Request)
    {route : Route} (h : route.isOfProjects = true) :
    Yields (Served.IsOwn c.user s.store r) Response.IsRefusal (t.serve fresh s c r route) := by
  cases route with
  | listProjects =>
    refine .bind (Store.yields_list.mapError fun _ _ => isRefusal_projectRefused _ _) fun ps hps => ?_
    exact .pure ⟨.nothing, .projects hps⟩
  | createProject =>
    refine .bind (yields_form _) fun form _ => ?_
    exact .bind (yields_project _ (Store.yields_create rfl)) fun s' ⟨hdeed, hown⟩ => .pure ⟨hdeed, .project _ hown⟩
  | showProject id =>
    refine .bind (yields_idOf id) fun id _ => ?_
    exact .bind (yields_project _ (Store.yields_get id)) fun p ⟨hown, _⟩ => .pure ⟨.nothing, .project _ hown⟩
  | updateProject id =>
    refine .bind (yields_idOf id) fun id _ => .bind (yields_form _) fun change _ => ?_
    exact .bind (yields_project _ (Store.yields_update hids id change)) fun u ⟨hdeed, hown⟩ =>
      .pure ⟨hdeed, .project _ hown⟩
  | deleteProject id =>
    refine .bind (yields_idOf id) fun id _ => ?_
    exact .bind (yields_project _ (Store.yields_remove id)) fun s' hdeed => .pure ⟨hdeed, .deleted⟩
  | runProject id =>
    refine .bind (yields_idOf id) fun id _ => .bind (yields_project _ (Store.yields_get id)) fun p ⟨hown, _⟩ => ?_
    have hrun := Store.yields_generateProject t.service s.cache hown
    generalize t.service.generateProject s.cache s.store p c.user = ran at hrun
    obtain ⟨_ | ⟨run, s'⟩, cache⟩ := ran
    · exact ⟨.nothing, .refused _ _⟩
    · obtain ⟨hdeed, hknown, hgeneration⟩ := hrun
      refine ⟨hdeed, ?_⟩
      cases hrejection : run.rejection with
      | some e => exact .rejected _ hknown hgeneration
      | none => exact .generation hknown hgeneration
  | generations id =>
    refine .bind (yields_idOf id) fun id _ => .bind (yields_project _ (Store.yields_get id)) fun p ⟨hown, hid⟩ => ?_
    refine .bind ((Store.yields_history id _).mapError fun _ _ => ⟨_, _, rfl⟩) fun gs hgs => ?_
    exact .pure ⟨.nothing, .generations fun g hg => ⟨(hgs g hg).1, p, hown, hid.trans (hgs g hg).2.symm⟩⟩
  | _ => simp [Route.isOfProjects] at h

/-- All other routes leave the tables as they are. -/
theorem yields_serve_elsewhere (t : Site) (fresh : ProjectId) (c : Caller) (r : Request) {route : Route}
    (h : route.isOfProjects = false) :
    Yields (fun served => served.sessions.store = s.store) (fun _ => True) (t.serve fresh s c r route) := by
  cases route with
  | generate => exact .bind .anyway fun form _ => .bind .anyway fun code _ => .pure rfl
  | kinds => exact .pure rfl
  | toolbox => exact .pure rfl
  | drawToolbox => exact .bind .anyway fun categories _ => .pure rfl
  | live id => exact .bind .anyway fun _ _ => .pure rfl
  | users id => exact .bind .anyway fun _ _ => .pure rfl
  | rooms => exact .pure rfl
  | _ => simp [Route.isOfProjects] at h

end Serving
end Blockwright.Http

/-! ## What sessions do to the store -/

namespace Blockwright.Live

variable {σ : Type} {I : σ → Prop} {p : Processor σ}

/-- What is true of a store stays true when a document is saved. -/
def Processor.Keeps (p : Processor σ) (I : σ → Prop) : Prop :=
  ∀ store project document, I store → Yields I (fun _ => True) (p.saveDocument store project document)

namespace Processor.Keeps

theorem process (h : p.Keeps I) (cache : Cache) {store : σ} (hstore : I store) (m : Message) :
    I (p.process cache store m).2.2 := by
  unfold Processor.process
  split
  · unfold processUpdate
    split
    case h_1 => exact hstore
    case h_2 document _ =>
      dsimp only
      split
      case h_1 => exact hstore
      case h_2 code _ =>
        have hsaved := h store m.project document hstore
        split
        case h_1 => exact hstore
        case h_2 store' hstore' => exact hsaved.ok hstore'
  · exact hstore

theorem finishWork (h : p.Keeps I) (s : Sessions σ) (hs : I s.store) (n : Nat) : I (s.finishWork p n).store := by
  unfold Sessions.finishWork
  split
  · exact hs
  · split
    · exact hs
    · split
      · exact h.process s.cache hs _
      · exact hs

theorem workAll (h : p.Keeps I) (s : Sessions σ) (hs : I s.store) (n : Nat) : I (s.workAll p n).store := by
  unfold Sessions.workAll
  dsimp only
  generalize List.range _ = turns
  induction turns generalizing s with
  | nil => exact hs
  | cons turn rest ih => exact ih _ (h.finishWork (s.onHub (·.takeWork n)) hs n)

theorem leave (h : p.Keeps I) (s : Sessions σ) (hs : I s.store) (n : Nat) : I (s.leave p n).store :=
  h.workAll (s.onHub (·.closeWork n)) hs n

theorem hear (h : p.Keeps I) (s : Sessions σ) (hs : I s.store) (n : Nat) (frame : Bytes) :
    I (s.hear p n frame).store := by
  unfold Sessions.hear
  split
  · exact h.workAll (s.onHub (·.receive n frame)) hs n
  · exact h.leave s hs n

end Processor.Keeps
end Blockwright.Live

namespace Blockwright.Http

/-- What can happen to the tables next, whoever is connected and whatever the cache holds. -/
inductive Step (s : Store) : Store → Prop
  | request (t : Site) (hub : Live.Hub) (cache : Cache) (fresh : ProjectId) (r : Request) :
    Step s (t.handle fresh { hub, cache, store := s } r).sessions.store
  | frame (t : Site) (hub : Live.Hub) (cache : Cache) (n : Nat) (frame : Bytes) :
    Step s (t.hear { hub, cache, store := s } n frame).store
  | edit (t : Site) (hub : Live.Hub) (cache : Cache) (n : Nat) :
    Step s (Live.Sessions.finishWork t.processor { hub, cache, store := s } n).store
  | leave (t : Site) (hub : Live.Hub) (cache : Cache) (n : Nat) :
    Step s (t.disconnect { hub, cache, store := s } n).store
  | faults (faults : StoreFaults) : Step s { s with faults }

/-- The states that the tables can come to. -/
def Reached (s : Store) : Prop := ∃ faults, Relation.ReflTransGen Step { faults } s

/-- Whatever is asked for, somebody who was let in does one deed. -/
theorem yields_serve (t : Site) (fresh : ProjectId) {s : Sessions} (hids : s.store.DistinctIds) (c : Caller)
    (r : Request) (route : Route) :
    Yields (fun served => s.store.Deed c.user served.sessions.store) (fun _ => True) (t.serve fresh s c r route) := by
  cases hroute : route.isOfProjects with
  | true =>
    have hown := yields_serve_projects t fresh hids c r hroute
    exact hown.weaken fun _ h => h.1
  | false =>
    have hsame := yields_serve_elsewhere (s := s) t fresh c r hroute
    exact hsame.weaken fun _ h => h ▸ .nothing

theorem later_handle (t : Site) (fresh : ProjectId) {s : Sessions} (hids : s.store.DistinctIds) (r : Request) :
    s.store.Later (t.handle fresh s r).sessions.store := by
  unfold Site.handle
  split
  case h_1 => exact .refl hids
  case h_2 route _ =>
    split
    case h_1 => exact .refl hids
    case h_2 c _ =>
      have hserve := yields_serve t fresh hids c r route
      split
      case h_1 served hserved => exact (hserve.ok hserved).later hids
      case h_2 => exact .refl hids

theorem keeps_later (t : Site) (s : Store) : t.processor.Keeps s.Later := by
  intro store project document hstore
  unfold Live.Processor.saveDocument
  dsimp only [Site.processor]
  split
  case h_1 => trivial
  case h_2 id _ =>
    have hsaved := Store.yields_saveDocument hstore.distinctIds id document
    exact ((hsaved.weaken fun _ h => hstore.trans h).reworded _).reworded _

theorem Step.later {s s' : Store} (h : Step s s') (hids : s.DistinctIds) : s.Later s' := by
  have hnow := Store.Later.refl hids
  cases h with
  | request t hub cache fresh r => exact later_handle t fresh (s := { hub, cache, store := s }) hids r
  | frame t hub cache n frame => exact (keeps_later t s).hear { hub, cache, store := s } hnow n frame
  | edit t hub cache n => exact (keeps_later t s).finishWork { hub, cache, store := s } hnow n
  | leave t hub cache n => exact (keeps_later t s).leave { hub, cache, store := s } hnow n
  | faults faults => exact ⟨List.prefix_rfl, hids⟩

/-- Whatever happens, no row ever gets another owner. -/
theorem later_of_steps {s s' : Store} (h : Relation.ReflTransGen Step s s') (hids : s.DistinctIds) :
    s.Later s' := by
  induction h with
  | refl => exact .refl hids
  | tail _ hstep ih => exact ih.trans (hstep.later ih.distinctIds)

theorem Reached.distinctIds {s : Store} (h : Reached s) : s.DistinctIds := by
  obtain ⟨faults, hsteps⟩ := h
  exact (later_of_steps hsteps List.nodup_nil).distinctIds

end Blockwright.Http
