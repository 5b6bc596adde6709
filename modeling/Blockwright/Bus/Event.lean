import Blockwright.Json.Printer
import Blockwright.Json.Slice
import Blockwright.Text.Chars
import Blockwright.Text.Raw
/-!
# Events about generations

After a stored project has been generated an event says so on the bus, under a subject that
names the project. A bridge takes events from the bus and hands them on; the subject decides
which project an event is about, whatever its text says.
-/

/-!
## Timestamps

The grammar of a date and time with a zone. The hour may have one digit, a fraction may stand
behind the second, and the zone is `Z` or hours and minutes with a sign.
-/

namespace Blockwright.Timestamp

/-- A number of two digits between two bounds. -/
def twoDigits? (low high : Nat) : List Char → Option (Nat × List Char)
  | a :: b :: rest =>
    if Text.isDigit a && Text.isDigit b then
      let n := Text.digitsValue [a, b]
      if low ≤ n && n ≤ high then some (n, rest) else none
    else none
  | _ => none

/-- A given character. -/
def expect? (c : Char) : List Char → Option (List Char)
  | d :: rest => if c = d then some rest else none
  | [] => none

/-- A year of four digits. -/
def year? (cs : List Char) : Option (Nat × List Char) :=
  let digits := cs.take 4
  if digits.length = 4 && digits.all Text.isDigit then some (Text.digitsValue digits, cs.drop 4)
  else none

/-- An hour of one or two digits. -/
def hour? (cs : List Char) : Option (List Char) :=
  let digits := (cs.take 2).takeWhile Text.isDigit
  if digits.isEmpty || 24 ≤ Text.digitsValue digits then none else some (cs.drop digits.length)

/-- Whether a year has a leap day. -/
def isLeap (year : Nat) : Bool := year % 4 == 0 && (year % 100 != 0 || year % 400 == 0)

/-- The days of a month. -/
def daysIn (year month : Nat) : Nat :=
  if month = 2 then (if isLeap year then 29 else 28)
  else if month = 4 || month = 6 || month = 9 || month = 11 then 30
  else 31

/-- Skips the fraction of a second. -/
def skipFraction : List Char → List Char
  | '.' :: d :: rest => if Text.isDigit d then rest.dropWhile Text.isDigit else '.' :: d :: rest
  | ',' :: d :: rest => if Text.isDigit d then rest.dropWhile Text.isDigit else ',' :: d :: rest
  | cs => cs

/-- Reads the zone at the end. -/
def zone? : List Char → Option Unit
  | ['Z'] => some ()
  | sign :: rest => do
    if sign ≠ '+' && sign ≠ '-' then none
    let (_, rest) ← twoDigits? 0 24 rest
    let (_, rest) ← twoDigits? 0 60 (← expect? ':' rest)
    if rest.isEmpty then some () else none
  | [] => none

/-- Reads a timestamp, of which nothing is kept. -/
def read? (s : String) : Option Unit := do
  let (year, cs) ← year? s.toList
  let (month, cs) ← twoDigits? 1 12 (← expect? '-' cs)
  let (_, cs) ← twoDigits? 1 (daysIn year month) (← expect? '-' cs)
  let cs ← hour? (← expect? 'T' cs)
  let (_, cs) ← twoDigits? 0 59 (← expect? ':' cs)
  let (_, cs) ← twoDigits? 0 59 (← expect? ':' cs)
  zone? (skipFraction cs)

/-- Whether the bytes of a value are `null` or a timestamp in quotes. What stands between the quotes is
taken as it is written, so a timestamp with an escape in it is none. -/
def isWritten (value : Bytes) : Bool :=
  match value with
  | [0x6E, 0x75, 0x6C, 0x6C] => true
  | 0x22 :: rest => rest.getLast? == some 0x22 && (read? (Text.ofBytes rest.dropLast)).isSome
  | _ => false

end Blockwright.Timestamp

/-! ## Events -/

namespace Blockwright

/-- A generation of a stored project. -/
structure GeneratedEvent where
  project : String := ""
  generation : Nat := 0
  user : String := ""
  checksum : String := ""
  code : String := ""
  error : String := ""
deriving DecidableEq, Repr

namespace GeneratedEvent

open Json (Reader)

/-- A natural number of 64 bits. -/
def natReader : Reader Nat
  | old, .null => some old
  | _, .num text =>
    if text.toList.all Text.isDigit then
      some (Text.digitsValue text.toList) |>.filter (· < 18446744073709551616)
    else none
  | _, _ => none

/-- Reads an event but for the time, of which nothing is kept. -/
def reader : Reader GeneratedEvent := .record fun old ms => do
  let project ← Reader.field ms "projectId" .string old.project
  let generation ← Reader.field ms "generationId" natReader old.generation
  let user ← Reader.field ms "userId" .string old.user
  let checksum ← Reader.field ms "checksum" .string old.checksum
  let code ← Reader.field ms "code" .string old.code
  let error ← Reader.field ms "error" .string old.error
  let _ ← Reader.field ms "durationMs" .int 0
  return { project, generation, user, checksum, code, error }

/-- An event in JSON; empty texts are left out. -/
def toJson (e : GeneratedEvent) : Json :=
  .object ([("projectId", .str e.project), ("generationId", .int e.generation)]
    ++ Json.textMember "userId" e.user ++ [("checksum", .str e.checksum)]
    ++ Json.textMember "code" e.code ++ Json.textMember "error" e.error)

/-- Reads the event that a payload holds. Its times have to be timestamps as they are written there. -/
def ofPayload? (payload : Bytes) : Option GeneratedEvent := do
  let event ← reader {} (← Json.parse? payload)
  if (Json.slicesOf payload "createdAt").all Timestamp.isWritten then some event else none

end GeneratedEvent

/-! ## Subjects -/

namespace Subject

/-- What stands between the lead of a subject and the project. -/
def middle : String := ".project."

/-- What stands behind the project. -/
def ending : String := ".generated"

/-- The subject of a project's events. -/
def ofProject (lead project : String) : String := lead ++ middle ++ project ++ ending

/-- The subject that stands for the events of all projects. -/
def anyProject (lead : String) : String := ofProject lead "*"

/-- Why a subject names no project. -/
inductive Error where
  | outside (subject lead : String)
  | malformed (subject : String)
deriving DecidableEq, Repr

/-- The message about a subject that names no project. -/
def Error.message : Error → String
  | .outside subject lead =>
    "subject " ++ Text.escaped subject ++ " outside prefix " ++ Text.escaped lead
  | .malformed subject => "malformed subject " ++ Text.escaped subject

/-- What stands before an ending. -/
def dropEnd? (ending cs : List Char) : Option (List Char) :=
  (Text.dropStart? ending.reverse cs.reverse).map List.reverse

/-- The project that a subject names. A project is one word: not empty and without dots. -/
def project (lead subject : String) : Except Error String :=
  match Text.dropStart? (lead ++ middle).toList subject.toList with
  | none => .error (.outside subject lead)
  | some rest =>
    match dropEnd? ending.toList rest with
    | some project =>
      if project.isEmpty || project.contains '.' then .error (.malformed subject)
      else .ok (String.ofList project)
    | none => .error (.malformed subject)

end Subject

/-- The event that a bridge hands on for a message, with the project its subject names. -/
def Bridge.deliver? (lead subject : String) (payload : Bytes) :
    Option (String × GeneratedEvent) := do
  let project ← (Subject.project lead subject).toOption
  let event ← GeneratedEvent.ofPayload? payload
  return (project, { event with project })

end Blockwright
