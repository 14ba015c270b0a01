/-
# What follows a phase

While a phase of a transaction waits for its replies, a `Continuation` says
how the transaction goes on when the last of them is in. It names the
transaction and does not hold it, so nothing is done for one that is gone by
then.

Key definitions: `Driver`, `Continuation`.
-/
import TwoPhase.Code
import TwoPhase.Trid

namespace TwoPhase

/-- Who drives a transaction, and so what the replies look like. -/
inductive Driver
  /-- A process that asked for commit or rollback. -/
  | client
  /-- The manager of another domain, to which this one is a resource;
  `onePhase` if it left both phases to this manager. -/
  | domain (onePhase : Bool)
deriving DecidableEq, Repr, Inhabited

/-- What is to be done once a phase of a transaction is complete. -/
inductive Continuation
  | prepare (global : Gtrid) (driver : Driver)
  /-- The reply of a `gated` commit may not overtake the one that said that
  the commit will be carried out. -/
  | commit (global : Gtrid) (driver : Driver) (gated : Bool)
  /-- `vote` is the outcome of the prepare phase that led to the rollback, if one did. -/
  | rollback (global : Gtrid) (driver : Driver) (vote : Option Code)
deriving DecidableEq, Repr, Inhabited

/-- The transaction that goes on. -/
def Continuation.global : Continuation → Gtrid
  | prepare g _ | commit g _ _ | rollback g _ _ => g

end TwoPhase
