import Blockwright.Json.Printer
import Blockwright.Json.Parser
import Blockwright.Project.Id
import Blockwright.Service.Generate
/-!
# Messages of live sessions

Every message of a session has a type, the project it belongs to, who caused it, and data that
depends on the type.
-/

namespace Blockwright.Live

/-- The types of messages. -/
inductive MessageType where
  | workspaceUpdate
  | codeGenerated
  | generationError
  | cursorMove
  | chat
  | userJoin
  | userLeave
  | error
  /-- A type that sessions do not know. -/
  | other (name : String)
deriving DecidableEq, Repr

namespace MessageType

/-- The name of a type. -/
def text : MessageType → String
  | .workspaceUpdate => "workspace.update"
  | .codeGenerated => "code.generated"
  | .generationError => "generation.error"
  | .cursorMove => "cursor.move"
  | .chat => "chat.message"
  | .userJoin => "user.join"
  | .userLeave => "user.leave"
  | .error => "error"
  | .other name => name

/-- The types that have a name of their own. -/
def named : List MessageType :=
  [.workspaceUpdate, .codeGenerated, .generationError, .cursorMove, .chat, .userJoin, .userLeave,
    .error]

/-- The type of a name. -/
def ofText (s : String) : MessageType := (named.find? fun t => t.text = s).getD (.other s)

/-- Whether a client may send messages of a type. -/
def isAllowed : MessageType → Bool
  | .workspaceUpdate | .cursorMove | .chat => true
  | _ => false

/-- Whether messages of a type are processed rather than passed on. -/
def isProcessed : MessageType → Bool
  | .workspaceUpdate => true
  | _ => false

end MessageType

/-- A user as the others see them. -/
structure UserInfo where
  user : String
  username : String
  color : String
deriving DecidableEq, Repr

/-- What a message carries. -/
inductive Payload where
  | nothing
  /-- JSON as the client wrote it. -/
  | raw (bytes : Bytes)
  /-- A value that is written anew. -/
  | value (json : Json)
  | code (text checksum : String) (cached : Bool) (generation : Nat)
  | rejected (error checksum : String)
  | joined (user : UserInfo)
  | roster (users : List UserInfo)
  | complaint (text error : String)

/-- A message of a session. -/
structure Message where
  type : MessageType
  project : String
  user : String
  username : String
  data : Payload := .nothing

/-! ## JSON -/

/-- A user in JSON. -/
def UserInfo.toJson (u : UserInfo) : Json :=
  .object [("userId", .str u.user), ("username", .str u.username), ("color", .str u.color)]

/-- What a message carries, in JSON. -/
def Payload.toJson : Payload → Json
  | .nothing => .null
  | .raw bytes => (Json.parse? bytes).getD .null
  | .value j => (Json.canonical? j).getD .null
  | .code text checksum cached generation =>
    .object ([("code", .str text), ("checksum", .str checksum), ("cached", .bool cached)]
      ++ if generation = 0 then [] else [("generationId", .int generation)])
  | .rejected error checksum => .object (("error", .str error) :: Json.textMember "checksum" checksum)
  | .joined user => user.toJson
  | .roster users => .object [("activeUsers", .array (users.map UserInfo.toJson))]
  | .complaint text error => .object (Json.textMember "error" error ++ [("customMessage", .str text)])

/-- A message in JSON. -/
def Message.toJson (m : Message) : Json :=
  .object ([("type", .str m.type.text)] ++ Json.textMember "projectId" m.project
    ++ [("userId", .str m.user), ("username", .str m.username), ("data", m.data.toJson)])

end Blockwright.Live
