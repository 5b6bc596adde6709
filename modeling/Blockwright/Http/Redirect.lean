import Blockwright.Http.Message
/-!
# Redirects

Whoever writes a slash too many at the end of a path is sent to the path without it. A proxy in
front of the service may say what it has cut off the path, and then that is put back.
-/

namespace Blockwright.Http

/-! ## Paths in links -/

/-- A byte that stands for itself in the path of a link. -/
def isPathByte (b : UInt8) : Bool :=
  b < 0x80 && (Text.isLetter (Char.ofNat b.toNat) || Text.isDigit (Char.ofNat b.toNat)
    || "-_.~$&+,/:;=@".toList.contains (Char.ofNat b.toNat))

/-- The characters that stand for one byte in the path of a link. -/
def pathByte (b : UInt8) : List Char :=
  if isPathByte b then [Char.ofNat b.toNat]
  else ['%', Text.upperHexDigit (b.toNat / 16), Text.upperHexDigit (b.toNat % 16)]

/-- A path as links spell it. -/
def linkPath (path : RawText) : String := String.ofList (path.bytes.flatMap pathByte)

/-- Adds a piece to a path, whose last piece is at the head: `.` stays, and `..` goes back, but
not past the root. -/
def step (rooted : Bool) (path : List String) (piece : String) : List String :=
  match piece, path with
  | "", _ | ".", _ => path
  | "..", [] => if rooted then [] else [".."]
  | "..", last :: before => if last = ".." then ".." :: path else before
  | _, _ => piece :: path

/-- The shortest path that leads to the same place. -/
def clean (path : String) : String :=
  let rooted := path.toList.head? = some '/'
  let pieces := ((Text.splitOn '/' path).foldl (step rooted) []).reverse
  if rooted then "/" ++ Text.joinWith "/" pieces
  else if pieces.isEmpty then "."
  else Text.joinWith "/" pieces

/-- Drops a slash that stands right behind another one. -/
def dropRepeatedSlashes : List Char → List Char
  | '/' :: '/' :: rest => dropRepeatedSlashes ('/' :: rest)
  | c :: rest => c :: dropRepeatedSlashes rest
  | [] => []

/-- What a proxy says it has cut off the paths: letters, digits, hyphens and slashes count. -/
def forwardedLead? (r : Request) : Option String :=
  let lead := clean (r.header "X-Forwarded-Prefix")
  if lead = "." then none
  else some <| String.ofList <| dropRepeatedSlashes <| lead.toList.filter fun c =>
    Text.isLetter c || Text.isDigit c || c == '/' || c == '-'

/-- What stands before the last piece of a path, its slash included. -/
def directory (path : String) : String :=
  String.ofList (path.toList.reverse.dropWhile (· ≠ '/')).reverse

/-- Whether a link names a host in place of a path. -/
def namesHost (link : String) : Bool :=
  match link.toList with
  | '/' :: '/' :: c :: _ => c ≠ '/'
  | _ => false

/-- The shortest path that leads to the same place, which keeps a slash at its end. -/
def cleanLink (link : String) : String :=
  let short := clean link
  if link.toList.getLast? = some '/' && short.toList.getLast? != some '/' then short ++ "/"
  else short

/-- The link to a path, from that path itself. -/
def linkTo (path : RawText) : String :=
  let link := linkPath path
  if namesHost link then link
  else if link.toList.head? = some '/' then cleanLink link
  else cleanLink (directory path.text ++ link)

/-- The characters that stand for one character in the text of a page. -/
def pageChar (c : Char) : List Char :=
  if c = '&' then "&amp;".toList
  else if c = '<' then "&lt;".toList
  else if c = '>' then "&gt;".toList
  else if c = '"' then "&#34;".toList
  else if c = '\x27' then "&#39;".toList
  else [c]

/-- A link in the text of a page. -/
def pageLink (link : String) : String := String.ofList (link.toList.flatMap pageChar)

/-! ## Responses -/

/-- The page is elsewhere. Only whoever asked for it by GET gets a link. -/
def Response.moved (method link : String) : Response :=
  if method = "GET" then
    { status := 301
      content := .text ("<a href=\"" ++ pageLink link ++ "\">Moved Permanently</a>.\n\n") }
  else { status := 307 }

/-- The path of a request without the slash at its end, behind what a proxy has cut off. -/
def Request.shortened (r : Request) : RawText :=
  let path : RawText := ⟨r.path.bytes.dropLast⟩
  match forwardedLead? r with
  | none => path
  | some lead => .ofString (lead ++ "/") ++ path

/-- Leads a request to its path without the slash at its end. -/
def Request.withoutSlash (r : Request) : Response :=
  .moved r.method (linkTo r.shortened ++ r.querySource)

end Blockwright.Http
