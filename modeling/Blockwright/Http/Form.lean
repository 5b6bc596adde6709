import Blockwright.Json.Slice
import Blockwright.Kind.Toolbox
import Blockwright.Project.Edit
/-!
# Forms

What the bodies of requests say. A body is read as one JSON value, whatever follows it; `null`
stands for a form that was not filled in. A form that was read is then checked, and the rules it
breaks are reported together, at most one a member.
-/

namespace Blockwright.Http

open Json (Reader)

/-- A rule that a member of a form breaks. -/
structure Violation where
  /-- The form and the member inside it. -/
  place : String
  member : String
  rule : String
deriving DecidableEq, Repr

/-- The message about a broken rule. -/
def Violation.message (v : Violation) : String :=
  "Key: '" ++ v.place ++ "' Error:Field validation for '" ++ v.member ++ "' failed on the '"
    ++ v.rule ++ "' tag"

/-- The first broken rule of a member, where rules come with whether they are kept. -/
def violations (form member : String) (rules : List (String × Bool)) : List Violation :=
  ((rules.find? fun r => !r.2).map fun r =>
    { place := form ++ "." ++ member, member, rule := r.1 : Violation }).toList

/-- Why a body is not a filled-in form. -/
inductive FormError where
  | unreadable
  | broken (violations : List Violation)
deriving DecidableEq, Repr

/-- The message about a body that is not a filled-in form. -/
def FormError.message : FormError → String
  | .unreadable => parseComplaint
  | .broken vs => Text.joinWith "\n" (vs.map Violation.message)

/-- Reads a form from a body and checks it. -/
def readForm {α : Type} (zero : α) (reader : Reader α) (check : α → List Violation)
    (body : Bytes) : Except FormError α :=
  match (Json.parseFront? body).bind fun (j, _) => reader zero j with
  | none => .error .unreadable
  | some form => if (check form).isEmpty then .ok form else .error (.broken (check form))

/-- A request for a program. -/
structure GenerateForm where
  /-- The document, as its bytes stand in the body. -/
  document : Document := none
  oneBased : Option Bool := none
deriving DecidableEq, Repr

namespace GenerateForm

/-- Reads a request for a program. -/
def reader (document : Document) : Reader GenerateForm := .record fun old ms => do
  let oneBased ← Reader.field ms "oneBasedIndex" (.optional false .bool) old.oneBased
  return { document, oneBased }

/-- A document has to be there. -/
def check (f : GenerateForm) : List Violation :=
  violations "Generate" "Workspace" [("required", f.document.isSome)]

/-- The request for a program that a body holds. -/
def read (body : Bytes) : Except FormError GenerateForm :=
  readForm {} (reader (Json.slice? body "workspace")) check body

end GenerateForm

/-- The longest name of a project. -/
def maxName : Nat := 200

/-- The longest description of a project. -/
def maxDescription : Nat := 2000

/-- A new project. -/
structure CreateForm where
  name : String := ""
  description : String := ""
  document : Document := none
deriving DecidableEq, Repr

namespace CreateForm

/-- Reads a new project. -/
def reader (document : Document) : Reader CreateForm := .record fun old ms => do
  let name ← Reader.field ms "name" .string old.name
  let description ← Reader.field ms "description" .string old.description
  return { name, description, document }

/-- A project has a name, and its texts are not too long. -/
def check (f : CreateForm) : List Violation :=
  violations "CreateProject" "Name"
      [("required", f.name ≠ ""), ("max", f.name.length ≤ maxName)]
    ++ violations "CreateProject" "Description" [("max", f.description.length ≤ maxDescription)]

/-- The new project that a body holds. -/
def read (body : Bytes) : Except FormError CreateForm :=
  readForm {} (reader (Json.slice? body "workspace")) check body

end CreateForm

namespace PatchForm

/-- Reads changes to a project. -/
def reader (document : Document) : Reader Patch := .record fun old ms => do
  let name ← Reader.field ms "name" (.optional "" .string) old.name
  let description ← Reader.field ms "description" (.optional "" .string) old.description
  return { name, description, document }

/-- A name that is given is not empty, and texts are not too long. -/
def check (c : Patch) : List Violation :=
  violations "UpdateProject" "Name"
      [("min", c.name.all (· ≠ "")), ("max", c.name.all (·.length ≤ maxName))]
    ++ violations "UpdateProject" "Description"
      [("max", c.description.all (·.length ≤ maxDescription))]

/-- The changes that a body holds. -/
def read (body : Bytes) : Except FormError Patch :=
  readForm {} (reader (Json.slice? body "workspace")) check body

end PatchForm

/-- A drawer while it is read, with what its lists held before. -/
structure DrawerForm where
  name : String := ""
  custom : String := ""
  items : Json.Slots String := {}
  sub : Json.Slots DrawerForm := {}

namespace DrawerForm

mutual

/-- The drawer that has been read. -/
def toCategory : DrawerForm → Kind.Category
  | ⟨name, custom, items, ⟨sub, _⟩⟩ =>
    { name, custom, items := items.items, sub := toCategories sub }

/-- The drawers that have been read. -/
def toCategories : List DrawerForm → List Kind.Category
  | [] => []
  | d :: rest => d.toCategory :: toCategories rest

end

/-- Reads a drawer; `fuel` bounds the nesting. -/
def reader : Nat → Reader DrawerForm
  | 0 => fun _ _ => none
  | fuel + 1 => .record fun old ms => do
    let name ← Reader.field ms "name" .string old.name
    let custom ← Reader.field ms "custom" .string old.custom
    let items ← Reader.field ms "items" (.slots "" .string) old.items
    let sub ← Reader.field ms "sub" (.slots {} (reader fuel)) old.sub
    return { name, custom, items, sub }

end DrawerForm

/-- A toolbox to be drawn; none when it was not given. -/
abbrev ToolboxForm := Option (Json.Slots DrawerForm)

namespace ToolboxForm

/-- Reads a toolbox. What can be read as JSON does not nest deeper than the fuel. -/
def reader : Reader ToolboxForm := .record fun old ms =>
  Reader.field ms "categories" (.optional {} (.slots {} (DrawerForm.reader Json.maxDepth))) old

/-- The outermost drawers have names. -/
def checkNames (drawers : List DrawerForm) : List Violation :=
  drawers.zipIdx.flatMap fun (d, i) =>
    violations ("Toolbox.Categories[" ++ Text.ofNat i ++ "]") "Name" [("required", d.name ≠ "")]

/-- There is a drawer, and the outermost drawers have names. -/
def check (f : ToolboxForm) : List Violation :=
  match violations "Toolbox" "Categories"
      [("required", f.isSome), ("min", f.any (!·.items.isEmpty))] with
  | [] => checkNames (f.getD {}).items
  | vs => vs

/-- The toolbox that a body holds. -/
def read (body : Bytes) : Except FormError (List Kind.Category) :=
  (readForm none reader check body).map fun f => DrawerForm.toCategories (f.getD {}).items

end ToolboxForm
end Blockwright.Http
