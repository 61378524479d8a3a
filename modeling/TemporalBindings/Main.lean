import TemporalBindings.Plugin.CommandLine

/-!
# TemporalBindings.Main

The command line program: it connects the command with the standard streams.
-/

namespace TemporalBindings

/-- All bytes of a stream. -/
partial def readAll (input : IO.FS.Stream) (bytes : ByteArray) : IO ByteArray := do
  let more ← input.read 65536
  if more.isEmpty then return bytes
  readAll input (bytes ++ more)

end TemporalBindings

open TemporalBindings TemporalBindings.Plugin

/-- Reads the input if the command needs it, runs the command, and writes what it
gives. -/
def main (arguments : List String) : IO UInt32 := do
  let input ← match Command.ofArguments arguments with
    | .respond => readAll (← IO.getStdin) .empty
    | _ => pure .empty
  let outcome := runCommand arguments input.data.toList
  let output ← IO.getStdout
  output.write outcome.output.toByteArray
  output.flush
  if outcome.diagnostic ≠ "" then
    (← IO.getStderr).putStrLn outcome.diagnostic
  return outcome.code.toUInt32
