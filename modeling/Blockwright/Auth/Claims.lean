import Blockwright.Json.Parser
import Blockwright.Json.Reader
import Blockwright.Number.Whole
/-!
# The claims of a token

What a token says about its bearer, and between which times it counts. Times are whole seconds
since the start of 1970.
-/

namespace Blockwright

/-- What a token says. -/
structure Claims where
  user : String := ""
  email : String := ""
  role : String := ""
  subject : String := ""
  expires : Option Int := none
  notBefore : Option Int := none
  issued : Option Int := none
deriving DecidableEq, Repr

namespace Claims

open Json (Reader)

/-- The seconds between the start of year one and the start of 1970. -/
def epochSeconds : Int := 62135596800

/-- A second as the calendar counts it: numbers past 64 bits stand for the least one, and
counting from year one wraps. -/
def clockSecond (n : Int) : Int :=
  let n := if Whole.least ≤ n && n ≤ Whole.greatest then n else Whole.least
  Whole.wrap (n + epochSeconds) - epochSeconds

/-- A time from a number of seconds, whose fraction is dropped downwards. -/
def timeOf : Double → Int
  | .finite negative m e =>
    let n : Int := if negative then -(m : Int) else m
    clockSecond (if e < 0 then Int.fdiv n (twoTo (-e).toNat) else n * twoTo e.toNat)
  | _ => Whole.least

/-- Reads a time: a number, or a text that spells one. `null` removes it. -/
def timeReader : Reader (Option Int)
  | _, .null => some none
  | _, .num text => ((Double.read text).toOption).map fun x => some (timeOf x)
  | _, .str text =>
    match Json.parse? (Text.bytesOf text) with
    | some (.num same) =>
      if same = text then ((Double.read text).toOption).map fun x => some (timeOf x) else none
    | _ => none
  | _, _ => none

/-- Reads the audience, a text or several, of which nothing is kept. -/
def audienceReader : Reader Unit
  | _, .null | _, .str _ => some ()
  | _, .arr _ items => if items.all (· matches .str _) then some () else none
  | _, _ => none

/-- Reads claims; members of the wrong kind make them unreadable. -/
def reader : Reader Claims := .record fun old ms => do
  let user ← Reader.field ms "uid" .string old.user
  let email ← Reader.field ms "email" .string old.email
  let role ← Reader.field ms "role" .string old.role
  let _ ← Reader.field ms "iss" .string ""
  let subject ← Reader.field ms "sub" .string old.subject
  let _ ← Reader.field ms "aud" audienceReader ()
  let expires ← Reader.field ms "exp" timeReader old.expires
  let notBefore ← Reader.field ms "nbf" timeReader old.notBefore
  let issued ← Reader.field ms "iat" timeReader old.issued
  let _ ← Reader.field ms "jti" .string ""
  return { user, email, role, subject, expires, notBefore, issued }

/-- A member for a time that is there. -/
def timeMember (name : String) (t : Option Int) : List (String × Json) :=
  (t.map fun n => (name, Json.int n)).toList

/-- Claims in JSON. -/
def toJson (c : Claims) : Json :=
  .object ([("uid", .str c.user), ("email", .str c.email), ("role", .str c.role)]
    ++ Json.textMember "sub" c.subject ++ timeMember "exp" c.expires
    ++ timeMember "nbf" c.notBefore ++ timeMember "iat" c.issued)

/-- Whether the claims have expired. -/
def isExpired (c : Claims) (now : Int) : Bool := c.expires.any fun t => t ≤ now

/-- Whether the claims do not count yet. -/
def isEarly (c : Claims) (now : Int) : Bool := c.notBefore.any fun t => now < t

end Claims
end Blockwright
