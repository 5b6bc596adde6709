import Blockwright.Live.Message
/-!
# Processing edits

An edit of a workspace is generated and then saved. The sender alone hears about an edit that
fails; the others hear about code.
-/

namespace Blockwright.Live

/-- Why a message could not be processed. -/
inductive ProcessError where
  /-- Its data cannot be written as JSON. -/
  | unwritable
  | rejected (rejection : Rejection)
  | badProject (project : String) (error : ProjectIdError)
  | notSaved (cause : String)
deriving DecidableEq, Repr

/-- The message about a message that could not be processed. -/
def ProcessError.message : ProcessError → String
  | .unwritable => "failed to marshal message data: " ++ parseComplaint
  | .rejected r => r.message
  | .badProject project e => "invalid project id " ++ Text.escaped project ++ ": " ++ e.message
  | .notSaved cause => "failed to save workspace: " ++ cause

/-- What edits are processed with: a service, and a way to save documents in a store `σ`. Without
one, edits are generated and not saved. -/
structure Processor (σ : Type) where
  service : Service := {}
  save? : Option (σ → ProjectId → Bytes → Except String σ) := none

/-- The document that a message carries. -/
def Message.document (m : Message) : Except ProcessError Bytes :=
  match m.data with
  | .raw bytes => .ok bytes
  | .value j =>
    match Json.canonical? j with
    | some j => .ok (Text.bytesOf j.render)
    | none => .error .unwritable
  | data => .ok (Text.bytesOf data.toJson.render)

namespace Processor

variable {σ : Type}

/-- Saves the document of a project. -/
def saveDocument (p : Processor σ) (store : σ) (project : String) (document : Bytes) :
    Except ProcessError σ :=
  match p.save? with
  | none => .ok store
  | some save =>
    match ProjectId.parse project with
    | .error e => .error (.badProject project e)
    | .ok id => (save store id document).mapError .notSaved

/-- The code of an edit, for everybody in the room. -/
def codeMessage (m : Message) (code : String) (o : Outcome) : Message :=
  { m with type := .codeGenerated, data := .code code o.checksum o.cached 0 }

/-- Generates and saves an edit. The code is cached before the document is saved. -/
def processUpdate (p : Processor σ) (cache : Cache) (store : σ) (m : Message) :
    Except ProcessError Message × Cache × σ :=
  match m.document with
  | .error e => (.error e, cache, store)
  | .ok document =>
    let (outcome, cache) := p.service.generate cache document none
    match outcome.code with
    | .error r => (.error (.rejected r), cache, store)
    | .ok code =>
      match p.saveDocument store m.project document with
      | .error e => (.error e, cache, store)
      | .ok store => (.ok (codeMessage m code outcome), cache, store)

/-- The message to broadcast for a message, or why there is none. -/
def process (p : Processor σ) (cache : Cache) (store : σ) (m : Message) :
    Except ProcessError Message × Cache × σ :=
  if m.type.isProcessed then p.processUpdate cache store m else (.ok m, cache, store)

end Processor

/-- A complaint to the sender of a message. -/
def Message.complaint (m : Message) (text : String) (error : String := "") : Message :=
  { m with type := .error, data := .complaint text error }

/-- The private answer to a message that could not be processed. -/
def Message.replyTo (m : Message) : ProcessError → Message
  | .rejected r => { m with type := .generationError, data := .rejected r.message "" }
  | e => m.complaint "Failed to process message" e.message

end Blockwright.Live
