import Blockwright.Auth.Claims
import Blockwright.Digest
import Blockwright.Json.Printer
import Blockwright.Text.Encoding
/-!
# Signed tokens

A token is three segments between dots: a header that names the way of signing, the claims, and
a signature over both. Tokens are signed with a keyed digest, and no other way is accepted.
-/

namespace Blockwright

/-- Why a token does not let its bearer in. -/
inductive TokenError where
  /-- It is not three readable segments. -/
  | malformed
  /-- Its way of signing is not known. -/
  | unverifiable
  /-- It is signed in another way or by another key. -/
  | badSignature
  /-- It counts no more, or not yet. -/
  | outOfTime (expired early : Bool)
  /-- It names no user. -/
  | noUser
deriving DecidableEq, Repr

namespace Token

/-- The way that tokens are signed. -/
def method : String := "HS256"

/-- The ways of signing that are known. -/
def knownMethods : List String :=
  ["HS256", "HS384", "HS512", "RS256", "RS384", "RS512", "ES256", "ES384", "ES512",
    "PS256", "PS384", "PS512", "EdDSA", "none"]

/-- The bytes of a segment; line ends in it are skipped. -/
def segment? (s : String) : Option Bytes :=
  Text.ofBase64? (String.ofList (s.toList.filter fun c => c != '\n' && c != '\r'))

/-- The JSON value of a segment. -/
def segmentJson? (s : String) : Option Json := do
  Json.parse? (← segment? s)

/-- The header of a token: an object, or `null`. -/
def header? (s : String) : Option Json := do
  match ← Json.canonical? (← segmentJson? s) with
  | .null => some .null
  | .object ms => some (.object ms)
  | _ => none

/-- The signature of the first two segments. -/
def signature (secret : String) (header claims : String) : Bytes :=
  Digest.hmac (Text.bytesOf secret) (Text.bytesOf (header ++ "." ++ claims))

/-- The segment of a JSON value. -/
def segmentOf (j : Json) : String := Text.toBase64 (Text.bytesOf j.render)

/-- A signed token with the given claims. -/
def sign (secret : String) (c : Claims) : String :=
  let header := segmentOf (.object [("alg", .str method), ("typ", .str "JWT")])
  let claims := segmentOf c.toJson
  header ++ "." ++ claims ++ "." ++ Text.toBase64 (signature secret header claims)

/-- The claims of a user whose token counts for some minutes from now. -/
def claimsFor (user email role : String) (now minutes : Int) : Claims :=
  { user, email, role, subject := user, issued := some now, expires := some (now + minutes * 60) }

/-- The claims of a token that is signed by the secret and counts now. -/
def validate (secret : String) (now : Int) (token : String) : Except TokenError Claims :=
  match Text.splitOn '.' token with
  | [header, claims, signed] =>
    match header? header, (segmentJson? claims).bind (Claims.reader {}) with
    | some head, some c =>
      match head.member? "alg" with
      | some (.str used) =>
        if !knownMethods.contains used then .error .unverifiable
        else if used ≠ method then .error .badSignature
        else
          match segment? signed with
          | none => .error .malformed
          | some bytes =>
            if bytes ≠ signature secret header claims then .error .badSignature
            else if c.isExpired now || c.isEarly now then
              .error (.outOfTime (c.isExpired now) (c.isEarly now))
            else if c.user = "" then .error .noUser
            else .ok c
      | _ => .error .unverifiable
    | _, _ => .error .malformed
  | _ => .error .malformed

end Token
end Blockwright
