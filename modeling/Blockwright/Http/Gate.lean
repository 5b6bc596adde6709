import Blockwright.Auth.Token
import Blockwright.Http.Message
/-!
# The gate

Who may use the service. Whoever bears a valid token is its user. In the mode for development
everybody is let in, as one user.
-/

namespace Blockwright.Http

/-- What callers are judged by. -/
structure Gate where
  mode : String := ""
  secret : String := ""
  /-- The time, in seconds since the start of 1970. -/
  now : Int := 0
deriving DecidableEq, Repr

/-- Whoever was let in. -/
structure Caller where
  user : String
  username : String
deriving DecidableEq, Repr

/-- Why somebody was not let in. -/
inductive Denial where
  | noToken
  | badToken
deriving DecidableEq, Repr

/-- The response to somebody who was not let in. -/
def Denial.response (d : Denial) : Response :=
  let text := match d with
    | .noToken => "Authorization header required"
    | .badToken => "Invalid or expired token"
  { status := 401, content := .json (.object [("error", .str text)]) }

/-- The user that stands for everybody during development. -/
def developer : String := "dev"

/-- The token of a request: from its header, or from its query when it has no header. -/
def Request.token? (r : Request) : Option String :=
  let header := r.header "Authorization"
  if header = "" then (r.value? "token").filter (· ≠ "")
  else
    match Text.splitOn ' ' header with
    | ["Bearer", token] => if token = "" then none else some token
    | _ => none

/-- The caller that claims name. -/
def Caller.ofClaims (c : Claims) : Caller :=
  { user := c.user, username := if c.email = "" then developer else c.email }

/-- Lets a caller in or not. -/
def Gate.judge (g : Gate) (r : Request) : Except Denial Caller :=
  if g.mode = developer then .ok { user := developer, username := developer }
  else
    match r.token? with
    | none => .error .noToken
    | some token =>
      match Token.validate g.secret g.now token with
      | .ok claims => .ok (.ofClaims claims)
      | .error _ => .error .badToken

end Blockwright.Http
