import Blockwright.Cache.Basic
import Blockwright.Digest
import Blockwright.Generator
import Blockwright.Kind.Registry
import Blockwright.Text.Chars
import Blockwright.Text.Encoding
import Blockwright.Workspace.Decode
/-!
# Generating on request

The service reads a document, generates its program with the settings of the installation, and
keeps the code in a cache. Documents that were rejected are not kept.
-/

/-!
## Checksums of workspaces

A checksum identifies a document together with the index mode it is generated in.
-/

namespace Blockwright

/-- What is digested: the document, then the index mode. -/
def checksumText (document : Bytes) (oneBased : Bool) : Bytes :=
  document ++ Text.bytesOf ("|oneBased=" ++ Text.ofBool oneBased)

/-- The checksum of a document in an index mode. -/
def checksum (document : Bytes) (oneBased : Bool) : String :=
  Text.hexOfBytes (Digest.sha256 (checksumText document oneBased))

/-- The key that a checksum's code is cached under. -/
def cacheKey (checksum : String) : String := "gen:" ++ checksum

end Blockwright

/-! ## The service -/

namespace Blockwright

/-- The settings that an installation generates with. -/
structure GeneratorSettings where
  oneBased : Bool := false
  /-- The indentation; empty for the usual one. -/
  indent : String := ""
  reserved : List String := []
  strict : Bool := false
deriving DecidableEq, Repr

/-- Why a document gives no program. -/
inductive Rejection where
  | invalidWorkspace (error : DecodeError)
  | generationFailed (error : GenerateError)
deriving DecidableEq, Repr

/-- The message about a rejected document. -/
def Rejection.message : Rejection → String
  | .invalidWorkspace e => "invalid workspace: " ++ e.message
  | .generationFailed e => "generation failed: " ++ e.message

namespace GeneratorSettings

/-- The generator of the settings. -/
def generator (s : GeneratorSettings) : Generator :=
  { reserved := s.reserved, indent := if s.indent = "" then "  " else s.indent, strict := s.strict }

/-- The program of a document in an index mode, which the document itself may switch on. -/
def compile (s : GeneratorSettings) (document : Bytes) (oneBased : Bool) :
    Except Rejection String := do
  let ws ← (Workspace.decode (some Kind.Registry.standard.classify) document).mapError
    .invalidWorkspace
  (s.generator.generate { ws with oneBased := ws.oneBased || oneBased }).mapError
    .generationFailed

end GeneratorSettings

/-- What a request for a program gives. -/
structure Outcome where
  checksum : String
  /-- Whether the code was in the cache. -/
  cached : Bool
  code : Except Rejection String

/-- The code of an outcome, empty when the document was rejected. -/
def Outcome.codeText (o : Outcome) : String := o.code.toOption.getD ""

/-- A generation service: its settings, and how many minutes its cache keeps code. -/
structure Service where
  settings : GeneratorSettings := {}
  cacheMinutes : Int := 30

namespace Service

/-- The index mode of a request: as asked for, or as configured. -/
def indexMode (s : Service) (oneBased : Option Bool) : Bool := oneBased.getD s.settings.oneBased

/-- The program of a document, from the cache or made now. -/
def generate (s : Service) (cache : Cache) (document : Bytes) (oneBased : Option Bool) :
    Outcome × Cache :=
  let base := s.indexMode oneBased
  let sum := checksum document base
  match cache.get? (cacheKey sum) with
  | some code => ({ checksum := sum, cached := true, code := .ok code }, cache)
  | none =>
    match s.settings.compile document base with
    | .ok code =>
      ({ checksum := sum, cached := false, code := .ok code },
        cache.set (cacheKey sum) code s.cacheMinutes)
    | .error e => ({ checksum := sum, cached := false, code := .error e }, cache)

end Service
end Blockwright
