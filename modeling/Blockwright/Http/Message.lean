import Blockwright.Json.Basic
import Blockwright.Text.Chars
import Blockwright.Text.Encoding
import Blockwright.Text.Raw
/-!
# Requests and responses

What is asked over a connection and what is answered.
-/

/-!
## Requests

A request as its sender wrote it: the target is split into a path and named values, and both
are freed of their escapes.
-/

namespace Blockwright.Http

/-- The bytes that a text with percent signs stands for; `none` when an escape is broken. In the
values of a query a plus sign is a space. -/
def unescape? (plusIsSpace : Bool) : Bytes → Option Bytes
  | [] => some []
  | 0x25 :: a :: b :: rest => do
    let pair ← Text.bytesOfHex? [Char.ofNat a.toNat, Char.ofNat b.toNat]
    return pair ++ (← unescape? plusIsSpace rest)
  | 0x25 :: _ => none
  | b :: rest => do
    let b := if plusIsSpace && b == 0x2B then 0x20 else b
    return b :: (← unescape? plusIsSpace rest)

/-- The text that a text with escapes stands for. -/
def unescapeText? (plusIsSpace : Bool) (cs : List Char) : Option RawText :=
  (unescape? plusIsSpace (Text.bytesOf (String.ofList cs))).map .mk

/-- What stands before the first of a character and what stands behind it. -/
def cut (sep : Char) (cs : List Char) : List Char × List Char :=
  (cs.takeWhile (· ≠ sep), (cs.dropWhile (· ≠ sep)).drop 1)

/-- A named value of a query; a broken one is left out. -/
def namedValue? (piece : String) : Option (String × String) :=
  if piece.toList.isEmpty || piece.toList.contains ';' then none
  else do
    let (name, value) := cut '=' piece.toList
    return ((← unescapeText? true name).text, (← unescapeText? true value).text)

/-- A request. -/
structure Request where
  method : String
  path : RawText
  /-- What the target holds behind its path, the question mark included. -/
  querySource : String := ""
  query : List (String × String) := []
  headers : List (String × String) := []
  body : Bytes := []
deriving DecidableEq, Repr

namespace Request

/-- The request for a target. -/
def ofTarget (method target : String) (headers : List (String × String)) (body : Bytes) :
    Request :=
  let target := (cut '#' target.toList).1
  let (path, query) := cut '?' target
  { method, path := (unescapeText? false path).getD (String.ofList path)
    querySource := String.ofList (target.drop path.length)
    query := (Text.splitOn '&' (String.ofList query)).filterMap namedValue?
    headers, body }

/-- The value of a header, whose name is matched without regard to case; empty when there is
none. -/
def header (r : Request) (name : String) : String :=
  ((r.headers.find? fun h => h.1.toLower = name.toLower).map (·.2)).getD ""

/-- The first value of a name in the query. -/
def value? (r : Request) (name : String) : Option String := r.query.lookup name

end Request
end Blockwright.Http

/-!
## Responses

A response has a status and, mostly, a JSON value.
-/

namespace Blockwright.Http

/-- What a response carries. -/
inductive Content where
  | nothing
  | json (value : Json)
  | text (value : String)
deriving Repr

/-- A response. -/
structure Response where
  status : Nat
  content : Content := .nothing
deriving Repr

namespace Response

/-- A value that was asked for. -/
def found (j : Json) : Response := { status := 200, content := .json j }

/-- A request that was not fulfilled: a message, and what else is known. -/
def refused (status : Nat) (message : String) (data : Json := .null) : Response :=
  { status, content := .json (.object [("message", .str message), ("data", data)]) }

/-- Nobody serves the path. -/
def noPage : Response := { status := 404, content := .text "404 page not found" }

/-- A connection was expected. -/
def noUpgrade : Response := { status := 400, content := .text "Bad Request\n" }

end Response
end Blockwright.Http
