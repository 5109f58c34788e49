import ProtoTypings.CommandLine

/-!
# Program

Reads standard input where there is a request to take, and writes the result if there is one.
-/

namespace ProtoTypings

/-- All that is left to read from a stream. -/
partial def readAll (stream : IO.FS.Stream) (read : ByteArray) : IO ByteArray := do
  let chunk ← stream.read 65536
  if chunk.isEmpty then return read else readAll stream (read ++ chunk)

/-- What never ends takes up more and more of the stack. -/
partial def goOn : IO UInt32 := do
  let code ← goOn
  return code + 1

end ProtoTypings

open ProtoTypings

def main (arguments : List String) : IO UInt32 := do
  let action := CommandLine.action arguments
  let input ← match action with
    | .generate => readAll (← IO.getStdin) .empty
    | _ => pure .empty
  match CommandLine.perform? input.data.toList action with
  | none => goOn
  | some result =>
    (← IO.getStdout).write result.output.toByteArray
    IO.eprint result.errorOutput
    return result.exitCode
