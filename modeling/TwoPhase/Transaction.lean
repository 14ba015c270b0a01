/-
# Transactions

A distributed transaction has branches, each with the resources involved in
it. The pairs of a branch and one of its resources are the participants: each
gets its own request in every phase.

Key definitions: `Transaction.involve`, `Transaction.participants`,
`Transaction.purge`, `Transaction.isSingle`.
-/
import TwoPhase.FirstMatch
import TwoPhase.SortedMap
import TwoPhase.Stage

namespace TwoPhase

/-- A branch of a transaction and the resources involved in it. -/
structure Branch where
  trid : Trid
  resources : SortedSet ResourceId
deriving DecidableEq, Repr

namespace Branch

/-- Involve resources; gives the branch and the ids that are new to it. -/
def involve (b : Branch) (ids : List ResourceId) : Branch × List ResourceId :=
  let (resources, new) := b.resources.addNew ids
  ({ b with resources }, new)

/-- Drop a resource from the branch. -/
def drop (b : Branch) (id : ResourceId) : Branch :=
  { b with resources := b.resources.erase id }

/-- The branch with its resources as text. -/
def display (b : Branch) : String :=
  b.trid.display ++ ": [" ++ ", ".intercalate (b.resources.toList.map toString) ++ "]"

end Branch

/-- Involve resources in the branch of a given id, added at the end if there
is none; gives the branches and the ids that are new to it. -/
def involveBranch (trid : Trid) (ids : List ResourceId) : List Branch → List Branch × List ResourceId
  | [] =>
    let (b, new) := Branch.involve ⟨trid, SortedMap.empty⟩ ids
    ([b], new)
  | b :: bs =>
    if b.trid = trid then
      let (b, new) := b.involve ids
      (b :: bs, new)
    else
      let (bs, new) := involveBranch trid ids bs
      (b :: bs, new)

/-- A distributed transaction as this manager knows it. -/
structure Transaction where
  /-- Global id, shared by all branches. -/
  global : Gtrid
  /-- Branch of the request that drives the transaction. -/
  trid : Trid
  /-- Who gets the reply. Nobody, if the owner is gone. -/
  owner : Option Handle
  /-- Correlation of the request that drives the transaction. -/
  correlation : Correlation
  /-- The id by which the domain that drives the transaction knows this manager. -/
  asResource : Option ResourceId
  stage : Stage
  /-- The prepare phase was successful and is logged. -/
  prepared : Bool
  branches : List Branch
  /-- When the transaction was first seen, in microseconds since the epoch. -/
  started : Nat
deriving DecidableEq, Repr

namespace Transaction

/-- A transaction that is seen for the first time. -/
def new (trid : Trid) (now : Nat) : Transaction where
  global := trid.gtrid
  trid := trid
  owner := none
  correlation := 0
  asResource := none
  stage := .involved
  prepared := false
  branches := []
  started := now

/-- The branch of a given id. -/
def branch? (t : Transaction) (trid : Trid) : Option Branch :=
  t.branches.find? fun b => b.trid = trid

/-- Involve resources in a branch; gives the ids that are new to it. -/
def involve (t : Transaction) (trid : Trid) (ids : List ResourceId) : Transaction × List ResourceId :=
  let (branches, new) := involveBranch trid ids t.branches
  ({ t with branches }, new)

/-- Every pair of a branch and a resource involved in it, in branch order. -/
def participants (t : Transaction) : List (Trid × ResourceId) :=
  t.branches.flatMap fun b => b.resources.toList.map fun id => (b.trid, id)

/-- Number of different resources over all branches. -/
def resourceCount (t : Transaction) : Nat :=
  (SortedSet.ofList (t.branches.flatMap fun b => b.resources.toList)).size

/-- No branch has a resource. -/
def isEmpty (t : Transaction) : Bool :=
  t.branches.all fun b => b.resources.isEmpty

/-- One branch with one resource: nobody else has to agree. -/
def isSingle (t : Transaction) : Bool :=
  t.resourceCount == 1 && t.branches.length == 1

/-- Drop participants, and the branches that are left without any. -/
def purge (t : Transaction) (gone : List (Trid × ResourceId)) : Transaction :=
  let branches := gone.foldl (fun bs x => modifyFirst (fun b => b.trid = x.1) (·.drop x.2) bs) t.branches
  { t with branches := branches.filter fun b => !b.resources.isEmpty }

/-- The transaction as text for people. -/
def display (t : Transaction) : String :=
  "\x7bglobal: " ++ t.global.display ++ ", stage: " ++ t.stage.label ++ ", branches: ["
    ++ ", ".intercalate (t.branches.map Branch.display) ++ "]\x7d"

end Transaction

/-- The transactions that this manager knows, by global id. -/
abbrev Table := SortedMap Gtrid Transaction

namespace Table

/-- Make sure that the transaction of `trid` is known. -/
def ensure (t : Table) (trid : Trid) (now : Nat) : Table :=
  if t.contains trid.gtrid then t else t.insert trid.gtrid (.new trid now)

/-- Global ids of the transactions that a process drives. -/
def ownedBy (t : Table) (pid : Pid) : List Gtrid :=
  (t.values.filter fun x => x.owner.map (·.pid) == some pid).map (·.global)

end Table

end TwoPhase
