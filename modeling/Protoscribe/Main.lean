import Protoscribe.CommandLine

set_option autoImplicit false

/-! # The program -/

namespace Protoscribe

/-- Reads a stream to its end. -/
partial def readAll (stream : IO.FS.Stream) (read : ByteArray) : IO ByteArray := do
  let chunk ← stream.read 65536
  if chunk.isEmpty then return read else readAll stream (read ++ chunk)

end Protoscribe

open Protoscribe in
/-- Answers the request on standard input. -/
def main : IO UInt32 := do
  let input ← readAll (← IO.getStdin) ByteArray.empty
  let run := Run.onInput input
  let output ← IO.getStdout
  output.write run.output
  output.flush
  IO.eprint run.errorText
  return UInt32.ofNat run.exitCode
