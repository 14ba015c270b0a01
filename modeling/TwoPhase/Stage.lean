/-
# Phases and stages

A transaction is settled in phases: every participant is asked to prepare,
then to commit or to roll back (`Phase`). `Stage` says how far a transaction
has come, `ReplyStage` which part of the protocol a reply to its owner reports
on, `Side` whether a participant is a resource served here or another domain.

Key definitions: `Phase`, `Stage`, `Stage.rank`, `Side`.
-/
import TwoPhase.Named

namespace TwoPhase

/-- What the participants are asked to do. -/
inductive Phase
  | prepare
  | commit
  | rollback
deriving DecidableEq, Repr, Inhabited

/-- How far a transaction has come. It never goes back. -/
inductive Stage
  | involved
  | prepare
  | commit
  | rollback
deriving DecidableEq, Repr, Inhabited

/-- What a reply to the owner of a transaction reports on. A commit that was
asked for is answered at stage `prepare` once it is durable that it will be
carried out, and again when it has been. -/
inductive ReplyStage
  | prepare
  | commit
  | rollback
  | error
deriving DecidableEq, Repr, Inhabited

/-- Who a resource request or reply is exchanged with: an instance of a
resource configured here, or the transaction manager of another domain. -/
inductive Side
  | resource
  | external
deriving DecidableEq, Repr, Inhabited

namespace Phase

def all : List Phase := [prepare, commit, rollback]

def name : Phase → String
  | prepare => "prepare"
  | commit => "commit"
  | rollback => "rollback"

def label : Phase → String
  | prepare => "Prepare"
  | commit => "Commit"
  | rollback => "Rollback"

end Phase

namespace Stage

/-- Place of the stage in the life of a transaction. -/
def rank : Stage → Nat
  | involved => 0
  | prepare => 1
  | commit => 2
  | rollback => 3

/-- The outcome is settled: the transaction is being committed or rolled back. -/
def isDecided : Stage → Bool
  | commit | rollback => true
  | _ => false

def name : Stage → String
  | involved => "involved"
  | prepare => "prepare"
  | commit => "commit"
  | rollback => "rollback"

def label : Stage → String
  | involved => "Involved"
  | prepare => "Prepare"
  | commit => "Commit"
  | rollback => "Rollback"

end Stage

def ReplyStage.name : ReplyStage → String
  | prepare => "prepare"
  | commit => "commit"
  | rollback => "rollback"
  | error => "error"

namespace Side

def name : Side → String
  | resource => "resource"
  | external => "external"

def label : Side → String
  | resource => "Resource"
  | external => "External"

end Side

instance : Named Phase where
  all := Phase.all
  name := Phase.name
  find_name a := by cases a <;> decide

instance : Named Stage where
  all := [.involved, .prepare, .commit, .rollback]
  name := Stage.name
  find_name a := by cases a <;> decide

instance : Named ReplyStage where
  all := [.prepare, .commit, .rollback, .error]
  name := ReplyStage.name
  find_name a := by cases a <;> decide

end TwoPhase
