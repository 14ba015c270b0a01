/-
# Journals

The manager needs little of its journal: remember a prepared transaction,
forget a settled one, make everything durable. A `Journal` is one in memory or
one in a file, and may be set to refuse one of its calls. A call that is
refused does nothing.

Key definitions: `Journal.prepare`, `Journal.remove`, `Journal.persist`,
`Journal.allow`.
-/
import TwoPhase.Journal.File
import TwoPhase.Journal.Memory

namespace TwoPhase

/-- Where a journal keeps its records. -/
inductive JournalStore
  | memory (m : MemoryJournal)
  | file (f : FileJournal)

structure Journal where
  store : JournalStore
  /-- Which call is refused: the `n`-th from now of the named one, counted from 1. -/
  refusal : Option (JournalCall × Nat)

namespace Journal

/-- A journal in memory. -/
def inMemory : Journal := ⟨.memory .empty, none⟩

instance : Inhabited Journal := ⟨inMemory⟩

/-- A journal in memory that refuses the `n`-th call of a kind. -/
def refusing (call : JournalCall) (n : Nat) : Journal := ⟨.memory .empty, some (call, n)⟩

/-- Whether a call is allowed. Every call counts towards the one that is refused. -/
def allow (j : Journal) (call : JournalCall) : Journal × Bool :=
  match j.refusal with
  | some (c, n) =>
    if c = call then
      if n = 1 then ({ j with refusal := none }, false)
      else ({ j with refusal := some (c, n - 1) }, true)
    else (j, true)
  | none => (j, true)

/-- Carry out a call, unless it is refused. -/
def attempt (j : Journal) (call : JournalCall) (act : JournalStore → JournalStore × Option Fault) :
    Journal × Option Fault :=
  let (j, allowed) := j.allow call
  if allowed then
    let (store, fault) := act j.store
    ({ j with store }, fault)
  else (j, some (.refused call))

/-- The journal after the program was started again: one in a file is opened
anew, one in memory is replaced by `fresh`. -/
def reopen (j : Journal) (fresh : Journal) : Except Fault Journal :=
  match j.store with
  | .memory _ => .ok fresh
  | .file f => (FileJournal.openOn f.close f.threshold).map fun f => ⟨.file f, none⟩

/-- Log that a transaction is prepared. -/
def prepare (j : Journal) (p : Prepared) (now : Nat) : Journal × Option Fault :=
  j.attempt .prepare fun
    | .memory m => (.memory (m.prepare p.global), none)
    | .file f => (.file (f.prepare p now), none)

/-- Forget a transaction. -/
def remove (j : Journal) (g : Gtrid) (now : Nat) : Journal × Option Fault :=
  j.attempt .remove fun
    | .memory m => (.memory (m.remove g), none)
    | .file f => (.file (f.remove g now), none)

/-- Make everything durable. -/
def persist (j : Journal) (now : Nat) : Journal × Option Fault :=
  j.attempt .persist fun
    | .memory m => (.memory m.persist, none)
    | .file f =>
      let (f, fault) := f.persist now
      (.file f, fault)

def statistics (j : Journal) : JournalStatistics :=
  match j.store with
  | .memory m => m.statistics
  | .file f => f.statistics

/-- The transactions that were found prepared when the journal was opened and
are not settled yet. -/
def inDoubt (j : Journal) : List Prepared :=
  match j.store with
  | .memory _ => []
  | .file f => f.inDoubt

/-- The transactions that are prepared and not removed. -/
def prepared (j : Journal) : List Gtrid :=
  match j.store with
  | .memory m => m.prepared.toList
  | .file f => f.live.keys

/-- What happened to a journal in memory. -/
def events (j : Journal) : List JournalEvent :=
  match j.store with
  | .memory m => m.events
  | .file _ => []

end Journal

end TwoPhase
