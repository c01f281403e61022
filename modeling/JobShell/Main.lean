import JobShell.Scratch.Script
import JobShell.Tools.Catalog

/-!
# The command line

`main` reads the whole standard input and runs it as a script, with the installed programs and an
empty scratch directory. What the script writes is written at its end.
-/

namespace JobShell

/-- What is read from a stream until its end, in pieces. -/
partial def readAll (input : IO.FS.Stream) (done : ByteArray) : IO ByteArray := do
  let piece ← input.read 65536
  if piece.isEmpty then return done else readAll input (done ++ piece)

/-- The bytes of a text as they are written to a stream. -/
def Bytes.toByteArray (s : Bytes) : ByteArray := ⟨s.toArray⟩

/-- The exit code that tells how a program ended. -/
def Ending.toExitCode : Ending → UInt32
  | .exited code => code.toUInt32
  | .killed n => (128 + n).toUInt32

end JobShell

open JobShell in
/-- Runs standard input as a script. -/
def main (args : List String) : IO UInt32 := do
  let input ← readAll (← IO.getStdin) ByteArray.empty
  let prompt := (← IO.getEnv "TISH_PROMPT").map Bytes.ofString
  let report := Script.perform Catalog.utilities
    { setup := { stdin := input.toList, settings := [("TISH_PROMPT", prompt)] }
      arguments := args.map Bytes.ofString }
  (← IO.getStdout).write report.stdout.toByteArray
  (← IO.getStderr).write report.stderr.toByteArray
  return report.ending.toExitCode
