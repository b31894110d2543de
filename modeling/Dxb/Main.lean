import Dxb.CommandLine.Run

/-!
# The program

Reads what the command needs, runs it, and writes its report.
-/

namespace Dxb.CommandLine

/-- The bytes of a file, if it can be read. -/
def readFile? (path : String) : IO (Option (List UInt8)) := do
  try
    return some (← IO.FS.readBinFile path).data.toList
  catch _ =>
    return none

/-- Reads a stream to its end. -/
partial def readAll (stream : IO.FS.Stream) (done : ByteArray) : IO ByteArray := do
  let chunk ← stream.read 65536
  if chunk.isEmpty then return done else readAll stream (done ++ chunk)

/-- What a command needs of its surroundings. -/
def surroundings (i : Invocation) : IO Surroundings := do
  let files ← i.paths.mapM fun path => do return (path, ← readFile? path)
  let input ← if i.readsInput then readAll (← IO.getStdin) .empty else pure .empty
  return ⟨input.data.toList, fun path => (files.lookup path).join⟩

end Dxb.CommandLine

open Dxb.CommandLine in
/-- The program. -/
def main (args : List String) : IO UInt32 := do
  let s ← match readArguments args with
    | .error _ => pure ⟨[], fun _ => none⟩
    | .ok i => surroundings i
  let report := Dxb.CommandLine.run args s
  (← IO.getStdout).putStr report.output
  (← IO.getStderr).putStr report.complaint
  return report.exit.toUInt32
