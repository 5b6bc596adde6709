import Blockwright.Http.Redirect
/-!
# Routes

What can be asked for, and by which method and path.
-/

namespace Blockwright.Http

/-- What is asked for. Ids are still as the path spells them. -/
inductive Route where
  | generate
  | kinds
  | toolbox
  | drawToolbox
  | listProjects
  | createProject
  | showProject (id : RawText)
  | updateProject (id : RawText)
  | deleteProject (id : RawText)
  | runProject (id : RawText)
  | generations (id : RawText)
  | live (id : RawText)
  | users (id : RawText)
  | rooms
deriving DecidableEq, Repr

namespace Route

/-- The route below the base path. An id at the end of a path is not empty. -/
def below? (method : String) (path : List RawText) : Option Route :=
  match method, path.map (·.text), path with
  | "POST", ["generate"], _ => some .generate
  | "GET", ["blocks"], _ => some .kinds
  | "GET", ["toolbox"], _ => some .toolbox
  | "POST", ["toolbox"], _ => some .drawToolbox
  | "GET", ["projects"], _ => some .listProjects
  | "POST", ["projects"], _ => some .createProject
  | "GET", ["projects", _], [_, id] => if id = "" then none else some (.showProject id)
  | "PUT", ["projects", _], [_, id] => if id = "" then none else some (.updateProject id)
  | "DELETE", ["projects", _], [_, id] => if id = "" then none else some (.deleteProject id)
  | "POST", ["projects", _, "generate"], [_, id, _] => some (.runProject id)
  | "GET", ["projects", _, "generations"], [_, id, _] => some (.generations id)
  | "GET", ["ws", "projects", _], [_, _, id] => if id = "" then none else some (.live id)
  | "GET", ["ws", "projects", _, "users"], [_, _, id, _] => some (.users id)
  | "GET", ["ws", "stats"], _ => some .rooms
  | _, _, _ => none

/-- The pieces of a path below the base path. -/
def pieces? (path : RawText) : Option (List RawText) :=
  match path.splitOn 0x2F with
  | a :: b :: c :: rest => if a = "" && b = "api" && c = "v1" then some rest else none
  | _ => none

/-- The route of a method and a path. -/
def of? (method : String) (path : RawText) : Option Route := (pieces? path).bind (below? method)

/-- Whether a path ends with an id that some route of the method has at that place. -/
def endsWithId (method : String) (path : List RawText) : Bool :=
  match path.map (·.text) with
  | ["projects", _] => ["GET", "POST", "PUT", "DELETE"].contains method
  | ["ws", "projects", _] => method == "GET"
  | _ => false

/-- Whether a path is known to the routes of a method. -/
def isKnown (method : String) (path : RawText) : Bool :=
  (of? method path).isSome || ((pieces? path).map (endsWithId method)).getD false

/-- The response to a request that has no route. A path with one slash too many is led to the
path without it, if that is known. -/
def missing (r : Request) : Response :=
  match r.path.bytes.reverse with
  | 0x2F :: rest => if isKnown r.method ⟨rest.reverse⟩ then r.withoutSlash else .noPage
  | _ => .noPage

end Route
end Blockwright.Http
