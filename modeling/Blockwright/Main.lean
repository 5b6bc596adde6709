import Blockwright.Service.Generate
import Blockwright.Settings.Environment
/-!
# The command line

Reads the document of a workspace from standard input and writes its program to standard output.
The generator is set up by the variables of the environment. A document that is rejected is
reported on the error output.
-/

namespace Blockwright.CommandLine

/-- The variables of the environment that set up the generator. -/
def variableNames : List String :=
  ["GEN_ONE_BASED_INDEX", "GEN_INDENT", "GEN_RESERVED_WORDS", "GEN_STRICT_HELPERS"]

/-- The settings of the generator in the environment. -/
def settings : IO GeneratorSettings := do
  let values ← variableNames.filterMapM fun name => do
    return (← IO.getEnv name).map fun value => (name, value)
  return .ofEnvironment values

/-- All bytes of a stream. -/
partial def readAll (stream : IO.FS.Stream) (read : Bytes) : IO Bytes := do
  let more ← stream.read 65536
  if more.isEmpty then return read else readAll stream (read ++ more.toList)

end Blockwright.CommandLine

open Blockwright in
/-- Generates the document on standard input. -/
def main : IO UInt32 := do
  let document ← CommandLine.readAll (← IO.getStdin) []
  let settings ← CommandLine.settings
  match settings.compile document settings.oneBased with
  | .ok code =>
    IO.print code
    return 0
  | .error rejection =>
    IO.eprintln rejection.message
    return 1
