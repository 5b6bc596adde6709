import Blockwright.Bus.Event
import Blockwright.Project.Store
import Blockwright.Service.Generate
/-!
# Generating stored projects

The document of a project is generated, what came of it is recorded, and an event says so. A
document that is rejected is recorded too.
-/

namespace Blockwright

/-- A recorded run over a project. -/
structure ProjectRun where
  generation : Generation
  rejection : Option Rejection
  event : GeneratedEvent
deriving DecidableEq, Repr

/-- The event about a generation that a user asked for. -/
def Generation.event (g : Generation) (user : String) : GeneratedEvent :=
  { project := g.project.toText, generation := g.id, user, checksum := g.checksum
    code := g.code, error := g.error }

/-- The rejection of a document that gave no program. -/
def Outcome.rejection (o : Outcome) : Option Rejection :=
  match o.code with
  | .ok _ => none
  | .error r => some r

/-- Generates a project for a user. The cache keeps the code even when it cannot be recorded. -/
def Service.generateProject (v : Service) (cache : Cache) (store : Store) (p : Project)
    (user : String) : Except StoreError (ProjectRun × Store) × Cache :=
  let (outcome, cache) := v.generate cache (p.document.getD []) none
  let error := (outcome.rejection.map (·.message)).getD ""
  match store.record p.id outcome.checksum outcome.codeText error with
  | .error e => (.error e, cache)
  | .ok (g, store) =>
    (.ok ({ generation := g, rejection := outcome.rejection, event := g.event user }, store), cache)

end Blockwright
