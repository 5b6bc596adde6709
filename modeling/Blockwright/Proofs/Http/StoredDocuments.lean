import Blockwright.Proofs.Http.Ownership
import Blockwright.Proofs.Service.Transparency
import Blockwright.Proofs.Project.Acceptance
/-!
# Every stored document can be read

Documents reach the tables in three ways. A project that is created or changed has its document read
first. An edit is only generated before it is saved, and its code may come from the cache, where
nothing is read: a document is digested before it is looked up. So the tables are looked at together
with the cache. While every row holds a document that can be read, code is cached only for documents
that can be read, and vouches for every document with its key, which is the same document as long as
no two digests collide.
-/

/-! ## What cached code says about a document -/

namespace Blockwright

/-- No two of the texts have one digest. -/
def DistinctDigests (texts : List Bytes) : Prop :=
  ∀ text ∈ texts, ∀ text' ∈ texts, Digest.sha256 text = Digest.sha256 text' → text = text'

theorem DistinctDigests.of_append {texts more : List Bytes} (h : DistinctDigests (texts ++ more)) :
    DistinctDigests texts := fun text htext text' htext' =>
  h text (List.mem_append_left _ htext) text' (List.mem_append_left _ htext')

/-- Code is in the cache only under the keys of documents that were digested and can be read. -/
def Cache.Vouches (texts : List Bytes) (c : Cache) : Prop :=
  ∀ key, isCodeKey key = true → ∀ code, c.held? key = some code →
    ∃ document oneBased, checksumText document oneBased ∈ texts ∧ key = cacheKey (checksum document oneBased) ∧
      Document.Readable (some document)

theorem GeneratorSettings.readable_of_compile {settings : GeneratorSettings} {document : Bytes} {oneBased : Bool}
    {code : String} (h : settings.compile document oneBased = .ok code) : Document.Readable (some document) := by
  unfold compile at h
  cases hdecode : Workspace.decode (some Kind.Registry.standard.classify) document with
  | ok ws => exact Document.readable_of_decode hdecode
  | error e => rw [hdecode] at h; cases h

namespace Cache.Vouches

variable {texts : List Bytes} {c c' : Cache}

/-- A cache that holds no code vouches for nothing. -/
theorem of_fresh (h : ∀ key, isCodeKey key = true → c.held? key = none) : c.Vouches texts := by
  intro key hkey code hheld
  rw [h key hkey] at hheld
  cases hheld

theorem mono (h : c.Vouches texts) (more : List Bytes) : c.Vouches (texts ++ more) := by
  intro key hkey code hheld
  obtain ⟨document, oneBased, hdigested, hrest⟩ := h key hkey code hheld
  exact ⟨document, oneBased, List.mem_append_left _ hdigested, hrest⟩

theorem drift (h : c.Vouches texts) (hdrift : c.DriftsTo c') : c'.Vouches texts := by
  intro key hkey code hheld
  rcases hdrift key hkey with hlost | hsame
  · rw [hlost] at hheld
    cases hheld
  · exact h key hkey code (hsame ▸ hheld)

variable (v : Service) (document : Bytes) (oneBased : Option Bool)

/-- A request leaves code in the cache only for a document that it could read. -/
theorem generate (h : c.Vouches texts) :
    (v.generate c document oneBased).2.Vouches (texts ++ [checksumText document (v.indexMode oneBased)]) := by
  rcases v.generate_cases c document oneBased with ⟨code, -, hg⟩ | ⟨code, hc, hg⟩ | ⟨r, -, hg⟩
  · rw [hg]
    exact h.mono _
  · rw [hg]
    cases htakes : c.takes with
    | false =>
      rw [Cache.set_of_not_takes htakes]
      exact h.mono _
    | true =>
      intro key hkey code' hheld
      rw [Cache.held?_set htakes] at hheld
      split_ifs at hheld with hown
      · exact ⟨document, v.indexMode oneBased, List.mem_append_right _ List.mem_cons_self, hown,
          GeneratorSettings.readable_of_compile hc⟩
      · exact h.mono _ key hkey code' hheld
  · rw [hg]
    exact h.mono _

/-- Whether its code was made or found, a document that has code can be read. -/
theorem readable_of_generate (h : c.Vouches texts)
    (hdistinct : DistinctDigests (texts ++ [checksumText document (v.indexMode oneBased)])) {code : String}
    (hcode : (v.generate c document oneBased).1.code = .ok code) : Document.Readable (some document) := by
  rcases v.generate_cases c document oneBased with ⟨code', hget, -⟩ | ⟨code', hc, -⟩ | ⟨r, -, hg⟩
  · obtain ⟨document', oneBased', hdigested, hkey, hread⟩ :=
      h _ (isCodeKey_cacheKey _) code' (Cache.held?_of_get? hget)
    have hsame := hdistinct _ (List.mem_append_right _ List.mem_cons_self) _ (List.mem_append_left _ hdigested)
      (sha256_eq_of_cacheKey hkey)
    rw [(checksumText_injective hsame).1]
    exact hread
  · exact GeneratorSettings.readable_of_compile hc
  · rw [hg] at hcode
    cases hcode

end Cache.Vouches
end Blockwright

namespace Blockwright

/-! ## The tables -/

namespace Store

variable {s : Store}

/-- A workspace can be read from the document of every row, whether or not the project is deleted. -/
def Readable (s : Store) : Prop := ∀ r ∈ s.projects, r.project.document.Readable

theorem readable_check {d : Document} : Yields (fun _ => d.Readable) (fun _ => True) d.check := by
  unfold Document.check
  split
  case h_1 ws hws =>
    cases d with
    | none => exact Document.readable_none
    | some bytes =>
      unfold Document.decode at hws
      dsimp only at hws
      split at hws
      · next hempty => exact fun _ => ⟨{}, by rw [Document.decode, if_pos hempty]⟩
      · exact Document.readable_of_decode hws
  case h_2 => trivial

theorem readable_get (h : s.Readable) (id : ProjectId) (user : String) :
    Yields (fun p => p.document.Readable) (fun _ => True) (s.get id user) :=
  (yields_get id).weaken fun _ ⟨⟨_, r, hr, _, hrow⟩, _⟩ => hrow ▸ h r hr

theorem readable_insert (h : s.Readable) {p : Project} (hp : p.document.Readable) :
    Yields Readable (fun _ => True) (s.insert p) := by
  refine .bind .anyway fun _ _ => ?_
  split
  · trivial
  · exact .pure fun r hr => (List.mem_append.1 hr).elim (h r) fun hr => List.mem_singleton.1 hr ▸ hp

theorem readable_save (h : s.Readable) {p : Project} (hp : p.document.Readable) :
    Yields Readable (fun _ => True) (s.save p) := by
  refine .bind .anyway fun _ _ => .pure fun r hr => ?_
  simp only [write] at hr
  split at hr
  · obtain ⟨r', hr', rfl⟩ := List.mem_map.1 hr
    split
    · exact hp
    · exact h r' hr'
  · exact (List.mem_append.1 hr).elim (h r) fun hr => List.mem_singleton.1 hr ▸ hp

theorem readable_create (h : s.Readable) (p : Project) : Yields Readable (fun _ => True) (s.create p) :=
  .bind readable_check fun _ hp => .reworded _ (readable_insert h hp)

/-- A project that is changed keeps its document or gets one that was read. -/
theorem readable_update (h : s.Readable) (id : ProjectId) (user : String) (c : Patch) :
    Yields (fun u => u.2.Readable) (fun _ => True) (s.update id user c) := by
  refine .bind (readable_get h id user) fun p hp => ?_
  have hchecked : Yields (fun _ => (c.apply p).document.Readable) (fun _ => True) c.check := by
    unfold Patch.check Patch.apply
    cases c.document with
    | none => exact hp
    | some bytes => exact readable_check
  exact hchecked.bind fun _ hp => .bind (.reworded _ (readable_save h hp)) fun s' hs' => .pure hs'

theorem readable_remove (h : s.Readable) (id : ProjectId) (user : String) :
    Yields Readable (fun _ => True) (s.remove id user) := by
  have hdelete : Yields (fun s' => ∀ s'', s' = some s'' → s''.Readable) (fun _ => True) (s.delete id user) := by
    refine .bind .anyway fun _ _ => ?_
    split
    · refine .pure fun s' hs' => ?_
      obtain rfl := Option.some.inj hs'
      intro r hr
      obtain ⟨r', hr', rfl⟩ := List.mem_map.1 hr
      split <;> exact h r' hr'
    · exact .pure fun s' hs' => nomatch hs'
  unfold remove
  split
  case h_1 => trivial
  case h_2 => trivial
  case h_3 s' hs' => exact hdelete.ok hs' s' rfl

theorem readable_saveDocument (h : s.Readable) (id : ProjectId) {document : Bytes}
    (hdocument : Document.Readable (some document)) :
    Yields Readable (fun _ => True) (s.saveDocument id document) := by
  refine .bind .anyway fun _ _ => .pure fun r hr => ?_
  obtain ⟨r', hr', rfl⟩ := List.mem_map.1 hr
  split
  · exact hdocument
  · exact h r' hr'

theorem readable_generateProject (h : s.Readable) (v : Service) (cache : Cache) (p : Project) (user : String) :
    Yields (fun u => u.2.Readable) (fun _ => True) (v.generateProject cache s p user).1 := by
  have hrecord : ∀ checksum code error,
      Yields (fun u => u.2.Readable) (fun _ => True) (s.record p.id checksum code error) := fun _ _ _ =>
    .bind .anyway fun _ _ => .bind .anyway fun _ _ => .pure h
  unfold Service.generateProject
  dsimp only
  split
  case h_1 => trivial
  case h_2 g s' hg => exact (hrecord _ _ _).ok hg

end Store

/-- The cache behind a generation is the same whether or not it could be recorded. -/
theorem Service.generateProject_cache (v : Service) (cache : Cache) (s : Store) (p : Project) (user : String) :
    (v.generateProject cache s p user).2 = (v.generate cache (p.document.getD []) none).2 := by
  unfold generateProject
  dsimp only
  split <;> rfl

/-- An edit that has code is saved. -/
theorem Live.Processor.store_process {σ : Type} {p : Live.Processor σ} {cache : Cache} {store store' : σ}
    {m : Live.Message} {document : Bytes} {code : String} (hprocessed : m.type.isProcessed = true)
    (hdocument : m.document = .ok document) (hcode : (p.service.generate cache document none).1.code = .ok code)
    (hsaved : p.saveDocument store m.project document = .ok store') : (p.process cache store m).2.2 = store' := by
  unfold process processUpdate
  rw [if_pos hprocessed, hdocument]
  dsimp only
  rw [hcode]
  dsimp only
  rw [hsaved]

theorem Live.Sessions.store_finishWork {σ : Type} {p : Live.Processor σ} {s : Live.Sessions σ} {n : Nat} {c : Live.Client}
    {m : Live.Message} (hc : s.hub.clients[n]? = some c) (hm : c.current = some m) (hprocesses : c.processes = true) :
    (finishWork p s n).store = (p.process s.cache s.store m).2.2 := by
  simp [finishWork, hc, hm, hprocesses]

namespace Http

/-! ## What is digested -/

/-- What is digested for an edit. -/
def Site.editDigest? (t : Site) (m : Live.Message) : Option Bytes :=
  if m.type.isProcessed then m.document.toOption.map (checksumText · (t.service.indexMode none)) else none

/-- What is digested when the worker of a client ends its edit. -/
def Site.workDigest? (t : Site) (s : Sessions) (n : Nat) : Option Bytes := do
  let c ← s.hub.clients[n]?
  let m ← c.current
  if c.processes then t.editDigest? m else none

/-- What is digested for a caller who asks for a program. -/
def Site.routeDigest? (t : Site) (s : Sessions) (c : Caller) (r : Request) : Route → Option Bytes
  | .generate => do
    let form ← (GenerateForm.read r.body).toOption
    return checksumText (form.document.getD []) (t.service.indexMode form.oneBased)
  | .runProject id => do
    let id ← (idOf id).toOption
    let p ← (s.store.get id c.user).toOption
    return checksumText (p.document.getD []) (t.service.indexMode none)
  | _ => none

/-- What is digested for a request. -/
def Site.digest? (t : Site) (s : Sessions) (r : Request) : Option Bytes := do
  let route ← Route.of? r.method r.path
  let c ← (t.gate.judge r).toOption
  t.routeDigest? s c r route

/-! ## Runs -/

/-- Runs of installations that share the tables and the cache: the texts that were digested so far,
and what the installations hold. Requests are served and edits are processed in any order. Who is
connected may change at any time, and so may what the database and the cache refuse. The cache may lose
code but gets none by itself. -/
inductive Run (start : Sessions) : List Bytes → Sessions → Prop
  | start : Run start [] start
  | request {texts : List Bytes} {s : Sessions} (t : Site) (fresh : ProjectId) (r : Request) : Run start texts s →
    Run start (texts ++ (t.digest? s r).toList) (t.handle fresh s r).sessions
  | edit {texts : List Bytes} {s : Sessions} (t : Site) (n : Nat) : Run start texts s →
    Run start (texts ++ (t.workDigest? s n).toList) (Live.Sessions.finishWork t.processor s n)
  | hub {texts : List Bytes} {s : Sessions} (hub : Live.Hub) : Run start texts s → Run start texts { s with hub }
  | cache {texts : List Bytes} {s : Sessions} {cache : Cache} : Run start texts s → s.cache.DriftsTo cache →
    Run start texts { s with cache }
  | faults {texts : List Bytes} {s : Sessions} (faults : StoreFaults) : Run start texts s →
    Run start texts { s with store := { s.store with faults } }

namespace Run

variable {start s : Sessions} {texts : List Bytes}

theorem workAll (h : Run start texts s) (t : Site) (n : Nat) :
    ∃ more, Run start (texts ++ more) (s.workAll t.processor n) := by
  unfold Live.Sessions.workAll
  dsimp only
  generalize List.range _ = turns
  induction turns generalizing s texts with
  | nil => exact ⟨[], by rwa [List.append_nil]⟩
  | cons turn rest ih =>
    obtain ⟨more, hrun⟩ := ih (.edit t n (h.hub (s.hub.takeWork n)))
    exact ⟨_, by rwa [List.append_assoc] at hrun⟩

/-- A client that goes has its edits processed first. -/
theorem disconnect (h : Run start texts s) (t : Site) (n : Nat) :
    ∃ more, Run start (texts ++ more) (t.disconnect s n) := by
  obtain ⟨more, hrun⟩ := (h.hub (s.hub.closeWork n)).workAll t n
  exact ⟨more, (hrun.hub _).hub _⟩

/-- A frame of a client leads to some edits. -/
theorem hear (h : Run start texts s) (t : Site) (n : Nat) (frame : Bytes) :
    ∃ more, Run start (texts ++ more) (t.hear s n frame) := by
  unfold Site.hear Live.Sessions.hear
  split
  · obtain ⟨more, hrun⟩ := (h.hub (s.hub.receive n frame)).workAll t n
    exact ⟨more, hrun.hub _⟩
  · exact h.disconnect t n

/-- A client that asks for a connection gets it or not. -/
theorem connect (h : Run start texts s) (t : Site) (client : String) (r : Request) :
    Yields (fun joined => Run start texts joined.2) (fun _ => True) (t.connect client s r) := by
  unfold Site.connect
  split
  · exact .bind .anyway fun _ _ => .bind .anyway fun _ _ => .pure (h.hub _)
  · trivial

/-- Events that come over the bus. -/
theorem relay (h : Run start texts s) (b : Bus) (events : List GeneratedEvent) : Run start texts (Site.relay b s events) :=
  h.hub _

end Run

/-! ## What a run keeps -/

/-- The documents that are stored can be read, and so can those that the cached code was made from. -/
structure Sound (texts : List Bytes) (s : Sessions) : Prop where
  stored : s.store.Readable
  cached : s.cache.Vouches texts

namespace Sound

variable {texts : List Bytes} {s : Sessions}

theorem mono (h : Sound texts s) (more : List Bytes) : Sound (texts ++ more) s := ⟨h.stored, h.cached.mono more⟩

theorem readable_save (t : Site) {store : Store} (h : store.Readable) (project : String) {document : Bytes}
    (hdocument : Document.Readable (some document)) :
    Yields Store.Readable (fun _ => True) (t.processor.saveDocument store project document) := by
  unfold Live.Processor.saveDocument
  dsimp only [Site.processor]
  split
  case h_1 => trivial
  case h_2 id _ => exact ((Store.readable_saveDocument h id hdocument).reworded _).reworded _

/-- Whoever was let in leaves the documents and the cache sound. -/
theorem serve (h : Sound texts s) (t : Site) (fresh : ProjectId) (c : Caller) (r : Request) (route : Route) :
    Yields (fun served => Sound (texts ++ (t.routeDigest? s c r route).toList) served.sessions) (fun _ => True)
      (t.serve fresh s c r route) := by
  have hsame : Sound (texts ++ (t.routeDigest? s c r route).toList) s := h.mono _
  cases route with
  | generate =>
    refine .bind (.reworded _ .itself) fun form hform => ?_
    have hdigest : t.routeDigest? s c r .generate
        = some (checksumText (form.document.getD []) (t.service.indexMode form.oneBased)) := by
      simp [Site.routeDigest?, hform, Except.toOption]
    rw [hdigest]
    exact .bind .anyway fun _ _ => .pure ⟨h.stored, h.cached.generate t.service _ _⟩
  | createProject =>
    exact .bind .anyway fun form _ => .bind (.reworded _ (Store.readable_create h.stored _)) fun store hstore =>
      .pure ⟨hstore, hsame.cached⟩
  | updateProject id =>
    exact .bind .anyway fun id _ => .bind .anyway fun change _ =>
      .bind (.reworded _ (Store.readable_update h.stored _ _ _)) fun u hu => .pure ⟨hu, hsame.cached⟩
  | deleteProject id =>
    exact .bind .anyway fun id _ => .bind (.reworded _ (Store.readable_remove h.stored _ _)) fun store hstore =>
      .pure ⟨hstore, hsame.cached⟩
  | runProject id =>
    refine .bind .itself fun project hproject => .bind (.reworded _ .itself) fun p hp => ?_
    have hdigest : t.routeDigest? s c r (.runProject id)
        = some (checksumText (p.document.getD []) (t.service.indexMode none)) := by
      simp [Site.routeDigest?, hproject, hp, Except.toOption]
    have hstored := Store.readable_generateProject h.stored t.service s.cache p c.user
    have hcached : (t.service.generateProject s.cache s.store p c.user).2.Vouches _ :=
      (t.service.generateProject_cache s.cache s.store p c.user).symm ▸ h.cached.generate t.service _ none
    rw [hdigest]
    generalize t.service.generateProject s.cache s.store p c.user = ran at hstored hcached
    obtain ⟨_ | ⟨run, store⟩, cache⟩ := ran
    · exact ⟨h.stored, hcached⟩
    · exact ⟨hstored, hcached⟩
  | kinds => exact .pure hsame
  | toolbox => exact .pure hsame
  | drawToolbox => exact .bind .anyway fun _ _ => .pure hsame
  | listProjects => exact .bind .anyway fun _ _ => .pure hsame
  | showProject id => exact .bind .anyway fun _ _ => .bind .anyway fun _ _ => .pure hsame
  | generations id =>
    exact .bind .anyway fun _ _ => .bind .anyway fun _ _ => .bind .anyway fun _ _ => .pure hsame
  | live id => exact .bind .anyway fun _ _ => .pure hsame
  | users id => exact .bind .anyway fun _ _ => .pure hsame
  | rooms => exact .pure hsame

theorem handle (h : Sound texts s) (t : Site) (fresh : ProjectId) (r : Request) :
    Sound (texts ++ (t.digest? s r).toList) (t.handle fresh s r).sessions := by
  have hsame : Sound (texts ++ (t.digest? s r).toList) s := h.mono _
  unfold Site.handle
  split
  case h_1 => exact hsame
  case h_2 route hroute =>
    split
    case h_1 => exact hsame
    case h_2 c hc =>
      have hdigest : t.digest? s r = t.routeDigest? s c r route := by
        simp [Site.digest?, hroute, hc, Except.toOption]
      have hserve := h.serve t fresh c r route
      split
      case h_1 served hserved => exact hdigest ▸ hserve.ok hserved
      case h_2 => exact hsame

/-- An edit is saved only when its document has code, and then it can be read. -/
theorem process (h : Sound texts s) (t : Site) (m : Live.Message)
    (hdistinct : DistinctDigests (texts ++ (t.editDigest? m).toList)) :
    (t.processor.process s.cache s.store m).2.1.Vouches (texts ++ (t.editDigest? m).toList) ∧
      (t.processor.process s.cache s.store m).2.2.Readable := by
  have hsame : s.cache.Vouches (texts ++ (t.editDigest? m).toList) := h.cached.mono _
  unfold Live.Processor.process
  split
  case isFalse => exact ⟨hsame, h.stored⟩
  case isTrue hprocessed =>
    unfold Live.Processor.processUpdate
    split
    case h_1 => exact ⟨hsame, h.stored⟩
    case h_2 document hdocument =>
      have hdigest : t.editDigest? m = some (checksumText document (t.service.indexMode none)) := by
        simp [Site.editDigest?, hprocessed, hdocument, Except.toOption]
      rw [hdigest] at hdistinct ⊢
      have hcached : (t.service.generate s.cache document none).2.Vouches _ := h.cached.generate t.service document none
      have hread : ∀ code, (t.service.generate s.cache document none).1.code = .ok code →
          Document.Readable (some document) := fun _ => h.cached.readable_of_generate t.service document none hdistinct
      dsimp only [Site.processor]
      split
      case h_1 => exact ⟨hcached, h.stored⟩
      case h_2 code hcode =>
        have hsaved := readable_save t h.stored m.project (hread code hcode)
        dsimp only [Site.processor] at hsaved
        split
        case h_1 => exact ⟨hcached, h.stored⟩
        case h_2 store hstore => exact ⟨hcached, hsaved.ok hstore⟩

theorem edit (h : Sound texts s) (t : Site) (n : Nat) (hdistinct : DistinctDigests (texts ++ (t.workDigest? s n).toList)) :
    Sound (texts ++ (t.workDigest? s n).toList) (Live.Sessions.finishWork t.processor s n) := by
  have hsame : Sound (texts ++ (t.workDigest? s n).toList) s := h.mono _
  unfold Live.Sessions.finishWork
  split
  case h_1 => exact hsame
  case h_2 c hc =>
    split
    case h_1 => exact hsame
    case h_2 m hm =>
      dsimp only
      split
      case isTrue hprocesses =>
        have hdigest : t.workDigest? s n = t.editDigest? m := by
          simp [Site.workDigest?, hc, hm, hprocesses]
        rw [hdigest] at hdistinct ⊢
        obtain ⟨hcached, hstored⟩ := h.process t m hdistinct
        exact ⟨hstored, hcached⟩
      case isFalse => exact ⟨hsame.stored, hsame.cached⟩

end Sound

/-- Whatever an installation does, its documents and its cache stay sound. -/
theorem Run.sound {start s : Sessions} {texts : List Bytes} (h : Run start texts s) (hstart : Sound [] start)
    (hdistinct : DistinctDigests texts) : Sound texts s := by
  induction h with
  | start => exact hstart
  | request t fresh r _ ih => exact (ih hdistinct.of_append).handle t fresh r
  | edit t n _ ih => exact (ih hdistinct.of_append).edit t n hdistinct
  | hub hub _ ih => exact ⟨(ih hdistinct).stored, (ih hdistinct).cached⟩
  | cache _ hdrift ih => exact ⟨(ih hdistinct).stored, (ih hdistinct).cached.drift hdrift⟩
  | faults faults _ ih => exact ⟨(ih hdistinct).stored, (ih hdistinct).cached⟩

/-- Every stored document can be read: from empty tables and a cache without code, whatever is asked
for and edited and whatever fails, a workspace can be read from the document of every row, with any
classifier or none. -/
theorem stored_documents_readable {start s : Sessions} {texts : List Bytes} (h : Run start texts s)
    (hempty : start.store.projects = []) (hfresh : ∀ key, isCodeKey key = true → start.cache.held? key = none)
    (hdistinct : DistinctDigests texts) : ∀ r ∈ s.store.projects, r.project.document.Readable := by
  have hstored : start.store.Readable := by simp [Store.Readable, hempty]
  have hstart : Sound [] start := ⟨hstored, .of_fresh hfresh⟩
  exact (h.sound hstart hdistinct).stored

/-- What an installation holds at first. -/
def blank : Sessions := { store := {}, cache := .memory [] {} }

/-- The edit of the developer's project that makes it an empty workspace. -/
def clearing : Live.Message :=
  { type := .workspaceUpdate, project := ProjectId.toText ⟨1⟩, user := developer, username := developer
    data := .raw Service.emptyDocument }

/-- The developer with that edit in hand. -/
def editor : Live.Client :=
  { id := "c", user := developer, username := developer, project := ProjectId.toText ⟨1⟩, current := some clearing }

/-- The developer has created a project and edits it. -/
def edited : Sessions := { (openSite.handle ⟨1⟩ blank creation).sessions with hub := { clients := [editor] } }

/-- The edit has been processed. -/
def cleared : Sessions := Live.Sessions.finishWork openSite.processor edited 0

theorem run_cleared : Run blank [checksumText Service.emptyDocument false] cleared := by
  have hcreation : openSite.digest? blank creation = none := by decide +kernel
  have hedit : openSite.workDigest? edited 0 = some (checksumText Service.emptyDocument false) := rfl
  have hrun : Run blank (([] ++ (openSite.digest? blank creation).toList) ++ (openSite.workDigest? edited 0).toList)
      cleared := .edit openSite 0 (.hub { clients := [editor] } (.request openSite ⟨1⟩ creation .start))
  rwa [hcreation, hedit, Option.toList_none, List.nil_append, Option.toList_some, List.nil_append] at hrun

/-- The document of the edit is stored, and it can be read. -/
theorem cleared_document_readable :
    cleared.store.projects.map (·.project.document) = [some Service.emptyDocument] ∧
      ∀ r ∈ cleared.store.projects, r.project.document.Readable := by
  have hdistinct : DistinctDigests [checksumText Service.emptyDocument false] := by
    intro text htext text' htext' _
    rw [List.mem_singleton.1 htext, List.mem_singleton.1 htext']
  refine ⟨?_, stored_documents_readable run_cleared rfl (fun _ _ => rfl) hdistinct⟩
  have hcode : ∃ code, (openSite.service.generate edited.cache Service.emptyDocument none).1.code = .ok code := by
    have hcache : edited.cache = .memory [] {} := by decide +kernel
    obtain ⟨code, hcompile⟩ := Service.compile_emptyDocument openSite.service.settings (openSite.service.indexMode none)
    rcases openSite.service.generate_cases edited.cache Service.emptyDocument none with
      ⟨code', -, hg⟩ | ⟨code', -, hg⟩ | ⟨e, hfailed, -⟩
    · exact ⟨code', by rw [hg]⟩
    · exact ⟨code', by rw [hg]⟩
    · rw [hcompile] at hfailed
      cases hfailed
  have hsaved : ∃ store, openSite.processor.saveDocument edited.store clearing.project Service.emptyDocument
      = .ok store ∧ store.projects.map (·.project.document) = [some Service.emptyDocument] := by
    have hstored : (openSite.processor.saveDocument edited.store clearing.project Service.emptyDocument).toOption.map
        (·.projects.map (·.project.document)) = some [some Service.emptyDocument] := by decide +kernel
    cases hsave : openSite.processor.saveDocument edited.store clearing.project Service.emptyDocument with
    | error e => rw [hsave] at hstored; cases hstored
    | ok store => rw [hsave] at hstored; exact ⟨store, rfl, Option.some.inj hstored⟩
  obtain ⟨code, hcode⟩ := hcode
  obtain ⟨store, hstore, hdocuments⟩ := hsaved
  have hwork : cleared.store = (openSite.processor.process edited.cache edited.store clearing).2.2 :=
    Live.Sessions.store_finishWork (c := editor) (m := clearing) rfl rfl rfl
  have hprocess : (openSite.processor.process edited.cache edited.store clearing).2.2 = store :=
    Live.Processor.store_process rfl rfl hcode hstore
  rw [hwork, hprocess, hdocuments]

end Http
end Blockwright
