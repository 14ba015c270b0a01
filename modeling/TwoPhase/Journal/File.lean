/-
# The journal in a file

A journal whose records are appended to a file, so that the transactions that
are prepared and not settled are known again after a crash. Opening it replays
the file and cuts off what an unfinished write left at its end. Once the file
has grown past a threshold it is compacted to the prepared transactions
that are still needed.

The new file is written beside the old one and put in its place by renaming,
so a crash leaves one of them. If the directory has gone away that fails; the
open file itself goes on working.

Key definitions: `FileJournal.openOn`, `FileJournal.prepare`,
`FileJournal.remove`, `FileJournal.persist`, `FileJournal.checkpoint`,
`FileJournal.inDoubt`.
-/
import TwoPhase.Journal.Disk

namespace TwoPhase

structure FileJournal where
  /-- Length of the file from which on it is compacted. -/
  threshold : Nat
  /-- What is in the open file. -/
  file : Bytes
  /-- The open file is the one in the directory. -/
  attached : Bool
  nextLsn : Nat
  /-- Transactions that are prepared and not removed. -/
  live : PreparedMap
  /-- Transactions that were prepared when the journal was opened. -/
  recovered : SortedSet Gtrid
  statistics : JournalStatistics
  /-- Something was written since the file was last made durable. -/
  dirty : Bool

instance : Inhabited FileJournal :=
  ⟨⟨0, [], false, 0, SortedMap.empty, SortedMap.empty, ⟨0, 0, 0⟩, false⟩⟩

namespace FileJournal

/-- Open the journal on a disk, made if there is none. -/
def openOn (disk : Disk) (threshold : Nat) : Except Fault FileJournal :=
  match disk with
  | .blocked => .error (.io "not a directory")
  | _ => do
    let found ← disk.replay?
    return {
      threshold
      file := (disk.contents?.getD []).take found.bytes
      attached := true
      nextLsn := found.nextLsn
      live := found.outstanding
      recovered := SortedSet.ofList found.outstanding.keys
      statistics := ⟨0, 0, 0⟩
      dirty := false }

/-- The disk as it is once the journal is closed. -/
def close (j : FileJournal) : Disk :=
  if j.attached then .directory (.file j.file) else .missing

/-- The directory is removed while the journal is open. -/
def detach (j : FileJournal) : Except Fault FileJournal :=
  if j.attached then .ok { j with attached := false } else .error (.io "no such directory")

/-- Append a record. -/
def write (j : FileJournal) (op : JournalOp) (now : Nat) : FileJournal :=
  { j with
    file := j.file ++ JournalRecord.frame ⟨j.nextLsn, op, now⟩
    nextLsn := j.nextLsn + 1
    dirty := true }

/-- Log that a transaction is prepared. -/
def prepare (j : FileJournal) (p : Prepared) (now : Nat) : FileJournal :=
  let j := { j with live := j.live.insert p.global p }.write (.prepare p) now
  { j with statistics := { j.statistics with prepare := j.statistics.prepare + 1 } }

/-- Forget a transaction. One that is not prepared leaves no trace. -/
def remove (j : FileJournal) (g : Gtrid) (now : Nat) : FileJournal :=
  if j.live.contains g then
    let j := { j with live := j.live.erase g, recovered := j.recovered.erase g }.write (.remove g) now
    { j with statistics := { j.statistics with remove := j.statistics.remove + 1 } }
  else j

/-- The records of a compacted file, numbered from `lsn`. -/
def checkpointRecords (live : PreparedMap) (lsn now : Nat) : List JournalRecord :=
  (JournalOp.checkpoint live.size :: live.values.map .prepare).mapIdx fun i op => ⟨lsn + i, op, now⟩

/-- Compact the file to the live transactions. The numbers of the
records are used up even if that fails. -/
def checkpoint (j : FileJournal) (now : Nat) : FileJournal × Option Fault :=
  let records := checkpointRecords j.live j.nextLsn now
  let j := { j with nextLsn := j.nextLsn + records.length }
  if j.attached then ({ j with file := records.flatMap JournalRecord.frame }, none)
  else (j, some (.io "no such directory"))

/-- Make everything durable, and compact the file if it has grown too long. -/
def persist (j : FileJournal) (now : Nat) : FileJournal × Option Fault :=
  if j.dirty then
    let j := { j with
      statistics := { j.statistics with writes := j.statistics.writes + 1 }
      dirty := false }
    if j.threshold ≤ j.file.length then j.checkpoint now else (j, none)
  else (j, none)

/-- Number of transactions that are prepared and not removed. -/
def outstanding (j : FileJournal) : Nat := j.live.size

/-- The transactions that were prepared when the journal was opened and are
not settled yet. -/
def inDoubt (j : FileJournal) : List Prepared :=
  j.recovered.toList.filterMap fun g => j.live.get? g

end FileJournal

end TwoPhase
