import Blockwright.Project.Document
import Blockwright.Project.Id
/-!
# The tables

Projects and their generations are kept in two tables. A project that is deleted stays in its
table and is no longer found. Each call on the tables happens at once or fails and changes
nothing.
-/

namespace Blockwright

/-- A project: what its owner calls it, and the document of its workspace. -/
structure Project where
  id : ProjectId
  name : String
  description : String := ""
  owner : String
  document : Document := none
deriving DecidableEq, Repr

/-- One run of the generator over the document of a project. -/
structure Generation where
  id : Nat
  project : ProjectId
  checksum : String
  /-- The program; empty when the document was rejected. -/
  code : String := ""
  /-- Why the document was rejected; empty when it was not. -/
  error : String := ""
deriving DecidableEq, Repr

/-- A project in its table. -/
structure ProjectRow where
  project : Project
  /-- The time of the last write. -/
  updated : Nat
  deleted : Bool := false
deriving DecidableEq, Repr

/-- Why a call on the tables failed. -/
inductive StoreError where
  | closed
  | readOnly
  /-- There is no table of generations. -/
  | noGenerations
  /-- There is a project with the id of a new one. -/
  | idTaken
deriving DecidableEq, Repr

/-- The message about a call that failed. -/
def StoreError.message : StoreError → String
  | .closed => "sql: database is closed"
  | .readOnly => "attempt to write a readonly database (8)"
  | .noGenerations => "SQL logic error: no such table: generation (1)"
  | .idTaken => "constraint failed: UNIQUE constraint failed: project.id (1555)"

/-- What the database refuses. -/
structure StoreFaults where
  closed : Bool := false
  readOnly : Bool := false
  noGenerations : Bool := false
deriving DecidableEq, Repr

/-- The tables. -/
structure Store where
  projects : List ProjectRow := []
  /-- The generations, the oldest first. -/
  generations : List Generation := []
  /-- The time of the last write; each one is later than the one before. -/
  clock : Nat := 0
  faults : StoreFaults := {}
deriving DecidableEq, Repr

/-- Whether a row is the project of an id that has not been deleted. -/
def ProjectRow.isAt (r : ProjectRow) (id : ProjectId) : Bool := !r.deleted && r.project.id = id

/-- Whether a row is the project of an id and an owner that has not been deleted. -/
def ProjectRow.isOf (r : ProjectRow) (id : ProjectId) (owner : String) : Bool :=
  r.isAt id && r.project.owner = owner

namespace Store

/-- Refuses to read when the database is closed. -/
def checkRead (s : Store) : Except StoreError Unit :=
  if s.faults.closed then .error .closed else .ok ()

/-- Refuses to write when the database is closed or only read. -/
def checkWrite (s : Store) : Except StoreError Unit := do
  s.checkRead
  if s.faults.readOnly then .error .readOnly

/-- Refuses every call on the table of generations when it is gone. -/
def checkGenerations (s : Store) : Except StoreError Unit :=
  if s.faults.noGenerations then .error .noGenerations else .ok ()

/-! ## Projects -/

/-- The project of an id, if it belongs to the owner. -/
def find (s : Store) (id : ProjectId) (owner : String) : Except StoreError (Option Project) := do
  s.checkRead
  return (s.projects.find? (·.isOf id owner)).map (·.project)

/-- The projects of an owner without their documents, the last written first. -/
def list (s : Store) (owner : String) : Except StoreError (List Project) := do
  s.checkRead
  let rows := s.projects.filter fun r => !r.deleted && r.project.owner = owner
  let rows := rows.mergeSort fun a b => b.updated ≤ a.updated
  return rows.map fun r => { r.project with document := none }

/-- Changes the rows, at a later time than all writes before. -/
def write (s : Store) (f : Nat → List ProjectRow → List ProjectRow) : Store :=
  { s with projects := f (s.clock + 1) s.projects, clock := s.clock + 1 }

/-- Adds a project. -/
def insert (s : Store) (p : Project) : Except StoreError Store := do
  s.checkWrite
  if s.projects.any fun r => r.project.id = p.id then .error .idTaken
  return s.write fun now rows => rows ++ [{ project := p, updated := now }]

/-- Writes every column of a project, in place of the row that has its id. A project that is not
there, or no longer, is there afterwards. -/
def save (s : Store) (p : Project) : Except StoreError Store := do
  s.checkWrite
  return s.write fun now rows =>
    let row : ProjectRow := { project := p, updated := now }
    if rows.any fun r => r.project.id = p.id then
      rows.map fun r => if r.project.id = p.id then row else r
    else rows ++ [row]

/-- Writes the document of a project, whoever owns it. Where there is no project nothing
happens. -/
def saveDocument (s : Store) (id : ProjectId) (document : Bytes) : Except StoreError Store := do
  s.checkWrite
  return s.write fun now rows => rows.map fun r =>
    if r.isAt id then
      { r with project := { r.project with document := some document }, updated := now }
    else r

/-- Deletes a project of the owner; `none` when there is none. -/
def delete (s : Store) (id : ProjectId) (owner : String) : Except StoreError (Option Store) := do
  s.checkWrite
  if s.projects.any (·.isOf id owner) then
    return some (s.write fun _ rows =>
      rows.map fun r => if r.isOf id owner then { r with deleted := true } else r)
  else return none

/-! ## Generations -/

/-- Records a generation and gives it the next number. -/
def record (s : Store) (project : ProjectId) (checksum code error : String) :
    Except StoreError (Generation × Store) := do
  s.checkWrite
  s.checkGenerations
  let g : Generation := { id := s.generations.length + 1, project, checksum, code, error }
  return (g, { s with generations := s.generations ++ [g] })

/-- The latest generations of a project, the newest first. -/
def latest (s : Store) (project : ProjectId) (limit : Nat) :
    Except StoreError (List Generation) := do
  s.checkRead
  s.checkGenerations
  return ((s.generations.filter fun g => g.project = project).reverse).take limit

end Store
end Blockwright
