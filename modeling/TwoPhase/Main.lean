/-
# The program

Reads the files that the command line may name, and does what it asks for.
The program has no way to accept connections, so a command line that
asks it to serve ends with a fault.
-/
import TwoPhase.CommandLine

open TwoPhase

/-- Contents of a file, if it can be read. -/
def readFile? (path : String) : IO (Option Bytes) := do
  try
    let bytes ← IO.FS.readBinFile path
    return some bytes.toList
  catch _ => return none

/-- Run the program; its exit code is the report's. -/
def main (args : List String) : IO UInt32 := do
  let files ← args.mapM fun path => do return (path, ← readFile? path)
  let host : Host :=
    { file? := fun path => ((files.find? fun f => f.1 = path).map (·.2)).join
      loopback := false }
  let report := CommandLine.run host .missing 0 args
  (← IO.getStdout).putStr report.output
  match report.fault with
  | some fault => (← IO.getStderr).putStrLn fault.message
  | none => pure ()
  return UInt32.ofNat report.exit
