/-
# Journal records

What a journal remembers: that a transaction is prepared, with the branches
it had then (`Prepared`), that it can be forgotten, and, at the head of a
compacted journal, how many prepared transactions follow.

Key definitions: `Prepared`, `JournalOp`, `JournalRecord`, `Prepared.ofTransaction`.
-/
import TwoPhase.Transaction

namespace TwoPhase

/-- A branch as it was when its transaction was prepared. -/
structure PreparedBranch where
  trid : Trid
  resources : List ResourceId
deriving DecidableEq, Repr, Inhabited

/-- A transaction whose participants all voted for commit. -/
structure Prepared where
  global : Gtrid
  trid : Trid
  owner : Option Pid
  branches : List PreparedBranch
  started : Nat
deriving DecidableEq, Repr, Inhabited

/-- The record of a transaction as it is now. -/
def Prepared.ofTransaction (t : Transaction) : Prepared where
  global := t.global
  trid := t.trid
  owner := t.owner.map (·.pid)
  branches := t.branches.map fun b => ⟨b.trid, b.resources.toList⟩
  started := t.started

/-- Something a journal records. -/
inductive JournalOp
  | prepare (prepared : Prepared)
  | remove (global : Gtrid)
  | checkpoint (outstanding : Nat)
deriving DecidableEq, Repr, Inhabited

/-- A record with its sequence number and the time it was made. -/
structure JournalRecord where
  lsn : Nat
  op : JournalOp
  timestamp : Nat
deriving DecidableEq, Repr, Inhabited

/-- How many preparations and removals were logged, and how many times
something was made durable. -/
structure JournalStatistics where
  prepare : Nat
  remove : Nat
  writes : Nat
deriving DecidableEq, Repr, Inhabited

/-- A call of a journal that changes it, as a journal that refuses one names it. -/
inductive JournalCall
  | prepare
  | remove
  | persist
deriving DecidableEq, Repr, Inhabited

def JournalCall.name : JournalCall → String
  | prepare => "prepare"
  | remove => "remove"
  | persist => "persist"

instance : Named JournalCall where
  all := [.prepare, .remove, .persist]
  name := JournalCall.name
  find_name a := by cases a <;> decide

/-- Something that a journal did. -/
inductive JournalEvent
  | prepare (global : Gtrid)
  | remove (global : Gtrid)
  | persist
deriving DecidableEq, Repr, Inhabited

end TwoPhase
