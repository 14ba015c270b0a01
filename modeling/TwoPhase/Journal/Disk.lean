/-
# The disk under a journal

A journal in a file lives in a directory of its own. `Disk` says what is there:
the directory may be missing, or something else may stand in its place or in
the place of the file.

Key definitions: `Disk`, `Disk.replay?`, `Disk.append`, `Disk.truncate`.
-/
import TwoPhase.Fault
import TwoPhase.Journal.Replay

namespace TwoPhase

/-- What stands where the file of a journal belongs. -/
inductive DiskEntry
  | nothing
  | directory
  | file (contents : Bytes)
deriving DecidableEq, Repr, Inhabited

/-- What stands where the directory of a journal belongs. -/
inductive Disk
  | missing
  /-- A plain file. -/
  | blocked
  | directory (entry : DiskEntry)
deriving DecidableEq, Repr, Inhabited

namespace Disk

/-- Name of the file in its directory. -/
def fileName : String := "transaction.log"

/-- The journal's file, if there is one. -/
def contents? : Disk → Option Bytes
  | directory (.file contents) => some contents
  | _ => none

/-- Replay the journal's file. No file is an empty journal. -/
def replay? : Disk → Except Fault Replay
  | directory (.file contents) => .ok (replay contents)
  | directory .directory => .error (.io "is a directory")
  | _ => .ok (replay [])

/-- Write bytes to the end of the file, made if there is none. -/
def append (bytes : Bytes) : Disk → Except Fault Disk
  | missing | directory .nothing => .ok (directory (.file bytes))
  | directory (.file contents) => .ok (directory (.file (contents ++ bytes)))
  | directory .directory => .error (.io "is a directory")
  | blocked => .error (.io "not a directory")

/-- Set the length of the file: cut it, or fill it up with zero bytes. -/
def truncate (length : Nat) : Disk → Except Fault Disk
  | directory (.file contents) =>
    .ok (directory (.file (contents.take length ++ List.replicate (length - contents.length) 0)))
  | _ => .error (.io "no such file")

/-- Make a directory in the place of the file. -/
def makeEntryDirectory : Disk → Except Fault Disk
  | missing | directory .nothing | directory .directory => .ok (directory .directory)
  | directory (.file _) => .error (.io "file exists")
  | blocked => .error (.io "not a directory")

/-- Make a plain file in the place of the directory. -/
def block : Disk → Except Fault Disk
  | missing | blocked => .ok blocked
  | directory _ => .error (.io "is a directory")

/-- Remove the directory with everything in it. -/
def removeDirectory : Disk → Except Fault Disk
  | directory _ => .ok missing
  | missing => .error (.io "no such directory")
  | blocked => .error (.io "not a directory")

end Disk

end TwoPhase
