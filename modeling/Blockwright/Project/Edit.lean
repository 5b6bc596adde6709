import Blockwright.Project.Store
/-!
# Editing projects

What the owner of a project can do with it. A document is kept only when a workspace can be read
from it.
-/

namespace Blockwright

/-- Why a project was not read or written. -/
inductive ProjectError where
  | notFound
  | invalid (error : DecodeError)
  | store (error : StoreError)
deriving DecidableEq, Repr

/-- Accepts the documents that a workspace can be read from. -/
def Document.check (d : Document) : Except ProjectError Unit :=
  match d.decode none with
  | .ok _ => .ok ()
  | .error e => .error (.invalid e)

/-- Changes to a project: what is given replaces what was there. -/
structure Patch where
  name : Option String := none
  description : Option String := none
  document : Document := none
deriving DecidableEq, Repr

namespace Patch

/-- Accepts a patch that carries no document, or one that a workspace can be read from. -/
def check (c : Patch) : Except ProjectError Unit :=
  match c.document with
  | none => .ok ()
  | some bytes => Document.check (some bytes)

/-- The changed project. -/
def apply (c : Patch) (p : Project) : Project :=
  { p with
    name := c.name.getD p.name
    description := c.description.getD p.description
    document := c.document.or p.document }

end Patch

namespace Store

/-- The project of an id, if it belongs to the owner. -/
def get (s : Store) (id : ProjectId) (owner : String) : Except ProjectError Project :=
  match s.find id owner with
  | .error e => .error (.store e)
  | .ok none => .error .notFound
  | .ok (some p) => .ok p

/-- Adds a project whose document is accepted. -/
def create (s : Store) (p : Project) : Except ProjectError Store := do
  p.document.check
  (s.insert p).mapError .store

/-- Changes a project of the owner: it is found, and then saved as a whole. -/
def update (s : Store) (id : ProjectId) (owner : String) (c : Patch) :
    Except ProjectError (Project × Store) := do
  let p ← s.get id owner
  c.check
  let s ← (s.save (c.apply p)).mapError .store
  return (c.apply p, s)

/-- Deletes a project of the owner. -/
def remove (s : Store) (id : ProjectId) (owner : String) : Except ProjectError Store :=
  match s.delete id owner with
  | .error e => .error (.store e)
  | .ok none => .error .notFound
  | .ok (some s) => .ok s

/-- How many generations are listed when the number asked for is not between one and a
hundred. -/
def usualLimit : Nat := 20

/-- The latest generations of a project. -/
def history (s : Store) (id : ProjectId) (limit : Int) : Except StoreError (List Generation) :=
  s.latest id (if 0 < limit && limit ≤ 100 then limit.toNat else usualLimit)

end Store
end Blockwright
