/-
# The journal in memory

A journal that keeps what it is told in memory, with everything that happened
to it in order. It forgets all of it when it goes away.

Key definitions: `MemoryJournal.prepare`, `MemoryJournal.remove`, `MemoryJournal.persist`.
-/
import TwoPhase.Journal.Record

namespace TwoPhase

structure MemoryJournal where
  /-- What happened so far, the oldest first. -/
  events : List JournalEvent
  /-- Transactions that were prepared and not removed since. -/
  prepared : SortedSet Gtrid
  statistics : JournalStatistics
  /-- Something was logged since the journal was last made durable. -/
  dirty : Bool
deriving Repr

namespace MemoryJournal

def empty : MemoryJournal := ⟨[], SortedMap.empty, ⟨0, 0, 0⟩, false⟩

instance : Inhabited MemoryJournal := ⟨empty⟩

/-- Log that a transaction is prepared. -/
def prepare (j : MemoryJournal) (g : Gtrid) : MemoryJournal where
  events := j.events ++ [.prepare g]
  prepared := SortedSet.add j.prepared g
  statistics := { j.statistics with prepare := j.statistics.prepare + 1 }
  dirty := true

/-- Forget a transaction. One that is not prepared leaves no trace. -/
def remove (j : MemoryJournal) (g : Gtrid) : MemoryJournal :=
  if j.prepared.contains g then
    { events := j.events ++ [.remove g]
      prepared := j.prepared.erase g
      statistics := { j.statistics with remove := j.statistics.remove + 1 }
      dirty := true }
  else j

/-- Make everything durable. Only what was not durable before counts as a write. -/
def persist (j : MemoryJournal) : MemoryJournal :=
  let j := { j with events := j.events ++ [JournalEvent.persist] }
  if j.dirty then
    { j with statistics := { j.statistics with writes := j.statistics.writes + 1 }, dirty := false }
  else j

end MemoryJournal

end TwoPhase
