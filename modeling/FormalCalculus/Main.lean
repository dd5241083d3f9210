import FormalCalculus.CommandLine

/-!
# The program

Reads what the command is given, runs it, and writes what it leaves behind.
-/

namespace FormalCalculus.CommandLine

/-- Reads a stream to its end. -/
partial def readAll (stream : IO.FS.Stream) (bytes : ByteArray) : IO ByteArray := do
  let chunk ← stream.read 65536
  if chunk.isEmpty then return bytes
  readAll stream (bytes ++ chunk)

end FormalCalculus.CommandLine

open FormalCalculus in
def main (args : List String) : IO UInt32 := do
  let stdin ← if args.isEmpty then CommandLine.readAll (← IO.getStdin) .empty else pure .empty
  let outcome := CommandLine.run .platform args stdin
  (← IO.getStdout).putStr outcome.output
  for line in outcome.diagnostics do
    (← IO.getStderr).putStrLn line
  return outcome.status
