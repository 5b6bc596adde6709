import Blockwright.Bus.Connection
import Blockwright.Http.Form
import Blockwright.Http.Gate
import Blockwright.Http.Route
import Blockwright.Live.Session
import Blockwright.Project.Run
/-!
# The site

What a request does to the tables, the cache and the live sessions, and what it is answered.
-/

namespace Blockwright.Http

/-- An installation. -/
structure Site where
  gate : Gate := {}
  service : Service := {}

/-- What an installation holds: the tables, the cache, and who is connected. -/
abbrev Sessions := Live.Sessions Store

/-- A request that was served. -/
structure Served where
  response : Response
  /-- The events it caused. -/
  events : List GeneratedEvent := []
  sessions : Sessions

/-! ## Values in responses -/

/-- A project in JSON; a document that is not there is left out. -/
def projectJson (p : Project) : Json :=
  .object ([("id", .str p.id.toText), ("name", .str p.name), ("description", .str p.description),
      ("ownerId", .str p.owner)]
    ++ if (p.document.getD []).isEmpty then [] else [("workspace", p.document.toJson)])

/-- A generation in JSON; empty texts are left out. -/
def generationJson (g : Generation) : Json :=
  .object ([("id", .int g.id), ("checksum", .str g.checksum)]
    ++ Json.textMember "code" g.code ++ Json.textMember "error" g.error)

/-- A toolbox in JSON. -/
def toolboxJson (categories : List Kind.Category) : Json :=
  .object [("categories", .array (Kind.Category.toJsons categories)),
    ("xml", .str (Kind.toolboxXml categories))]

/-- What is known about the place where generating failed. -/
def placeJson (e : GenerateError) : Json :=
  .object (((e.block.map fun b => [("blockId", .str b.id), ("kind", .str b.kind)]).getD [])
    ++ match e.cause with
      | .unhandledOption _ field option => [("field", .str field), ("option", .str option.text)]
      | _ => [])

/-! ## Refusals -/

/-- The response to a body that is no filled-in form. -/
def badForm (e : FormError) : Response := .refused 400 e.message

/-- The response to a project that was not read or written. -/
def projectRefused (action : String) : ProjectError → Response
  | .notFound => .refused 404 "Project not found"
  | .invalid e => .refused 400 (Rejection.invalidWorkspace e).message
  | .store _ => .refused 500 ("Failed to " ++ action ++ " project")

/-- The response to a document that was rejected. -/
def rejected : Rejection → Response
  | .invalidWorkspace e => .refused 400 (Rejection.invalidWorkspace e).message
  | .generationFailed e => .refused 422 (Rejection.generationFailed e).message (placeJson e)

/-- The id that a path spells. -/
def idOf (text : RawText) : Except Response ProjectId :=
  (ProjectId.parse text).mapError fun _ => .refused 400 "Invalid ID"

/-! ## Serving -/

/-- Whoever asks may follow the live session of a project only if it is found. -/
def checkLive (s : Sessions) (c : Caller) (id : RawText) : Except Response ProjectId := do
  let id ← idOf id
  match s.store.get id c.user with
  | .ok _ => .ok id
  | .error _ => .error (projectRefused "get" .notFound)

namespace Site

/-- Serves a request for a program. -/
def generate (t : Site) (s : Sessions) (body : Bytes) : Except Response Served := do
  let form ← (GenerateForm.read body).mapError badForm
  let (outcome, cache) := t.service.generate s.cache (form.document.getD []) form.oneBased
  let code ← outcome.code.mapError rejected
  return {
    response := .found (.object [("code", .str code), ("checksum", .str outcome.checksum),
      ("cached", .bool outcome.cached)])
    sessions := { s with cache } }

/-- Serves a request to generate a project. -/
def runProject (t : Site) (s : Sessions) (c : Caller) (id : RawText) : Except Response Served := do
  let id ← idOf id
  let p ← (s.store.get id c.user).mapError (projectRefused "get")
  match t.service.generateProject s.cache s.store p c.user with
  | (.error _, cache) =>
    return { response := .refused 500 "Failed to generate code", sessions := { s with cache } }
  | (.ok (run, store), cache) =>
    let found := generationJson run.generation
    let response := match run.rejection with
      | some r => .refused 422 r.message found
      | none => .found found
    return { response, events := [run.event], sessions := { s with cache, store } }

/-- Serves a request of a caller. A new project gets the fresh id. -/
def serve (t : Site) (fresh : ProjectId) (s : Sessions) (c : Caller) (r : Request) :
    Route → Except Response Served
  | .generate => t.generate s r.body
  | .kinds =>
    return { response := .found (.array (Kind.Registry.standard.sorted.map (·.toJson)))
             sessions := s }
  | .toolbox =>
    return { response := .found (toolboxJson (Kind.defaultToolbox .standard)), sessions := s }
  | .drawToolbox => do
    let categories ← (ToolboxForm.read r.body).mapError badForm
    return { response := .found (toolboxJson categories), sessions := s }
  | .listProjects => do
    let ps ← (s.store.list c.user).mapError fun e => projectRefused "list" (.store e)
    return { response := .found (.array (ps.map projectJson)), sessions := s }
  | .createProject => do
    let form ← (CreateForm.read r.body).mapError badForm
    let p : Project :=
      { id := fresh, name := form.name, description := form.description, owner := c.user
        document := form.document }
    let store ← (s.store.create p).mapError (projectRefused "create")
    return { response := { status := 201, content := .json (projectJson p) }
             sessions := { s with store } }
  | .showProject id => do
    let id ← idOf id
    let p ← (s.store.get id c.user).mapError (projectRefused "get")
    return { response := .found (projectJson p), sessions := s }
  | .updateProject id => do
    let id ← idOf id
    let change ← (PatchForm.read r.body).mapError badForm
    let (p, store) ← (s.store.update id c.user change).mapError (projectRefused "update")
    return { response := .found (projectJson p), sessions := { s with store } }
  | .deleteProject id => do
    let id ← idOf id
    let store ← (s.store.remove id c.user).mapError (projectRefused "delete")
    return { response := { status := 204 }, sessions := { s with store } }
  | .runProject id => t.runProject s c id
  | .generations id => do
    let id ← idOf id
    let _ ← (s.store.get id c.user).mapError (projectRefused "get")
    let limit := match r.value? "limit" with
      | some text => (Whole.ofText? text).getD 0
      | none => 0
    let gs ← (s.store.history id limit).mapError fun _ => .refused 500 "Failed to list generations"
    return { response := .found (.array (gs.map generationJson)), sessions := s }
  | .live id => do
    let _ ← checkLive s c id
    return { response := .noUpgrade, sessions := s }
  | .users id => do
    let id := (← idOf id).toText
    return { response := .found (.object [("projectId", .str id),
               ("users", .array ((s.hub.users id).map (·.toJson)))])
             sessions := s }
  | .rooms =>
    return { response := .found (.object [("rooms", .object (s.hub.stats.map fun (project, n) =>
               (project, .int n)))])
             sessions := s }

/-- Serves a request: it needs a route, and then its sender has to be let in. -/
def handle (t : Site) (fresh : ProjectId) (s : Sessions) (r : Request) : Served :=
  match Route.of? r.method r.path with
  | none => { response := Route.missing r, sessions := s }
  | some route =>
    match t.gate.judge r with
    | .error d => { response := d.response, sessions := s }
    | .ok c =>
      match t.serve fresh s c r route with
      | .ok served => served
      | .error response => { response, sessions := s }

/-! ## Live sessions -/

/-- What live edits are processed with: documents are saved in the tables. -/
def processor (t : Site) : Live.Processor Store :=
  { service := t.service
    save? := some fun store id document =>
      (store.saveDocument id document).mapError StoreError.message }

/-- Events travel over the bus to the live sessions of their projects. -/
def relay (b : Bus) (s : Sessions) (events : List GeneratedEvent) : Sessions :=
  s.onHub fun hub => Live.Hub.pump <| events.foldl (fun hub e =>
    match b.publish e with
    | .error _ => hub
    | .ok (subject, text) =>
      match b.delivered subject (Text.bytesOf text.render) with
      | some (project, e) => hub.deliver project e
      | none => hub) hub

/-- Somebody asks for a connection, under an id for the client: it is given to whoever may follow
the project. Every other request is answered as if no connection had been asked for. -/
def connect (t : Site) (client : String) (s : Sessions) (r : Request) :
    Except Response (Nat × Sessions) :=
  match Route.of? r.method r.path with
  | some (.live id) => do
    let c ← (t.gate.judge r).mapError (·.response)
    let id ← checkLive s c id
    return s.join { id := client, user := c.user, username := c.username, project := id.toText }
  | _ => .error (t.handle ⟨0⟩ s r).response

/-- A connected client sends a frame. -/
def hear (t : Site) (s : Sessions) (n : Nat) (frame : Bytes) : Sessions :=
  s.hear t.processor n frame

/-- A connected client goes. -/
def disconnect (t : Site) (s : Sessions) (n : Nat) : Sessions := s.leave t.processor n

end Site
end Blockwright.Http
