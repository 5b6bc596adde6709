import Blockwright.Settings.Environment
/-!
# Starting up

The settings of an installation come from an environment file and the environment, which wins.
Then the servers are connected to, one after the other.
-/

namespace Blockwright

/-- How the database is reached. -/
structure DatabaseSettings where
  host : String
  port : String
  user : String
  password : String
  name : String
  sslMode : String
deriving DecidableEq, Repr

/-- How the key store is reached, and how many minutes code is kept there. -/
structure KeyStoreSettings where
  host : String
  port : String
  password : String
  number : Int
  cacheMinutes : Int
deriving DecidableEq, Repr

/-- The settings of an installation. -/
structure Settings where
  mode : String
  apiPort : String
  database : DatabaseSettings
  secret : String
  tokenMinutes : Int
  keyStore : KeyStoreSettings
  busUrl : String
  busLead : String
  generator : GeneratorSettings
deriving DecidableEq, Repr

/-- Why the program does not start. -/
inductive StartError where
  | noFile
  | unreadableFile
  | unset (name : String)
deriving DecidableEq, Repr

/-- The message about a program that does not start. -/
def StartError.message : StartError → String
  | .noFile => "Error loading .env file: open .env: no such file or directory"
  | .unreadableFile => "Error loading .env file: " ++ parseComplaint
  | .unset name => name ++ " must be set"

namespace Settings

/-- The text of a name that must be set. -/
def required (env : Environment) (name : String) : Except StartError String :=
  if env.text name = "" then .error (.unset name) else .ok (env.text name)

/-- The settings in an environment. -/
def ofEnvironment (env : Environment) : Except StartError Settings := do
  let mode ← required env "RUN_MODE"
  let apiPort ← required env "API_PORT"
  let host ← required env "DB_HOSTNAME"
  let port ← required env "DB_PORT"
  let user ← required env "DB_USERNAME"
  let password ← required env "DB_PASSWORD"
  let name ← required env "DB_NAME"
  let sslMode ← required env "DB_SSL_MODE"
  let secret ← required env "JWT_SECRET"
  return {
    mode, apiPort, secret
    database := { host, port, user, password, name, sslMode }
    tokenMinutes := env.intOr "JWT_EXPIRATION_MINUTES" 60
    keyStore := {
      host := env.textOr "REDIS_HOST" "localhost"
      port := env.textOr "REDIS_PORT" "6379"
      password := env.text "REDIS_PASSWORD"
      number := env.intOr "REDIS_DB" 0
      cacheMinutes := env.intOr "CACHE_TTL_MINUTES" 30 }
    busUrl := env.textOr "NATS_URL" "nats://127.0.0.1:4222"
    busLead := env.textOr "NATS_SUBJECT_PREFIX" "blockgen"
    generator := .ofEnvironment env }

/-- The settings from a file, if it is there, and the environment, which wins. -/
def load (file : Option String) (env : Environment) : Except StartError Settings :=
  match file with
  | none => .error .noFile
  | some text =>
    match EnvFile.parse? text with
    | none => .error .unreadableFile
    | some vars => ofEnvironment (env ++ vars)

end Settings

/-! ## Servers -/

/-- The servers that the program needs. -/
inductive Server where
  | database
  | keyStore
  | bus
deriving DecidableEq, Repr

/-- The servers in the order they are connected to. -/
def Server.all : List Server := [.database, .keyStore, .bus]

/-- The first server that cannot be reached. -/
def Server.firstUnreachable? (isUp : Server → Bool) : Option Server :=
  Server.all.find? fun s => !isUp s

/-- What the key store is told before the first call: the password, if there is one, and the
number of the database, if it is not the first. -/
def KeyStoreSettings.greeting (s : KeyStoreSettings) : List String :=
  (if s.password = "" then [] else ["auth " ++ s.password])
    ++ (if s.number > 0 then ["select " ++ Text.ofInt s.number] else [])

/-- The name that the program gives itself on the bus. -/
def busClientName : String := "blockgen-api"

end Blockwright
