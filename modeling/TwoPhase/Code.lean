/-
# Outcome codes

A participant answers each request with an XA outcome, `Code`. Codes are
ranked by severity (`Code.severity`, 0 is the worst), and the outcomes of
many participants are reduced to the worst of them (`Code.worst`). The
reduction starts from `readOnly`, the mildest code; if a participant could
not answer at all, nobody knows what became of its branch, and it starts from
`heuristicHazard` instead.

Key definitions: `Code.severity`, `Code.worse`, `Code.worst`, `Code.xa`.
-/
namespace TwoPhase

/-- The outcome of a request to a participant, from most to least severe. -/
inductive Code
  | heuristicHazard
  | heuristicMixed
  | heuristicCommit
  | heuristicRollback
  | resourceFail
  | resourceError
  | rollbackIntegrity
  | rollbackCommunication
  | rollback
  | rollbackOther
  | rollbackDeadlock
  | protocol
  | rollbackProtocol
  | rollbackTimeout
  | rollbackTransient
  | invalid
  | noMigrate
  | outside
  | async
  | retry
  | duplicateId
  | notATransaction
  | ok
  | readOnly
deriving DecidableEq, Repr, Inhabited

namespace Code

/-- Every code, most severe first. -/
def all : List Code :=
  [heuristicHazard, heuristicMixed, heuristicCommit, heuristicRollback, resourceFail,
    resourceError, rollbackIntegrity, rollbackCommunication, rollback, rollbackOther,
    rollbackDeadlock, protocol, rollbackProtocol, rollbackTimeout, rollbackTransient, invalid,
    noMigrate, outside, async, retry, duplicateId, notATransaction, ok, readOnly]

/-- Rank of a code: the lower the rank, the more severe the outcome. -/
def severity : Code → Nat
  | heuristicHazard => 0
  | heuristicMixed => 1
  | heuristicCommit => 2
  | heuristicRollback => 3
  | resourceFail => 4
  | resourceError => 5
  | rollbackIntegrity => 6
  | rollbackCommunication => 7
  | rollback => 8
  | rollbackOther => 9
  | rollbackDeadlock => 10
  | protocol => 11
  | rollbackProtocol => 12
  | rollbackTimeout => 13
  | rollbackTransient => 14
  | invalid => 15
  | noMigrate => 16
  | outside => 17
  | async => 18
  | retry => 19
  | duplicateId => 20
  | notATransaction => 21
  | ok => 22
  | readOnly => 23

/-- The number the XA interface gives the code. -/
def xa : Code → Int
  | heuristicHazard => 8
  | heuristicMixed => 5
  | heuristicCommit => 7
  | heuristicRollback => 6
  | resourceFail => -7
  | resourceError => -3
  | rollbackIntegrity => 103
  | rollbackCommunication => 101
  | rollback => 100
  | rollbackOther => 104
  | rollbackDeadlock => 102
  | protocol => -6
  | rollbackProtocol => 105
  | rollbackTimeout => 106
  | rollbackTransient => 107
  | invalid => -5
  | noMigrate => 9
  | outside => -9
  | async => -2
  | retry => 4
  | duplicateId => -8
  | notATransaction => -4
  | ok => 0
  | readOnly => 3

/-- The code that the XA interface gives the number `n`, if any. -/
def ofXa? (n : Int) : Option Code :=
  all.find? fun c => c.xa = n

/-- Name of the code in messages. -/
def name : Code → String
  | heuristicHazard => "heuristic_hazard"
  | heuristicMixed => "heuristic_mixed"
  | heuristicCommit => "heuristic_commit"
  | heuristicRollback => "heuristic_rollback"
  | resourceFail => "resource_fail"
  | resourceError => "resource_error"
  | rollbackIntegrity => "rollback_integrity"
  | rollbackCommunication => "rollback_communication"
  | rollback => "rollback"
  | rollbackOther => "rollback_other"
  | rollbackDeadlock => "rollback_deadlock"
  | protocol => "protocol"
  | rollbackProtocol => "rollback_protocol"
  | rollbackTimeout => "rollback_timeout"
  | rollbackTransient => "rollback_transient"
  | invalid => "invalid"
  | noMigrate => "no_migrate"
  | outside => "outside"
  | async => "async"
  | retry => "retry"
  | duplicateId => "duplicate_id"
  | notATransaction => "not_a_transaction"
  | ok => "ok"
  | readOnly => "read_only"

/-- Name of the code as it is shown to people. -/
def label : Code → String
  | heuristicHazard => "HeuristicHazard"
  | heuristicMixed => "HeuristicMixed"
  | heuristicCommit => "HeuristicCommit"
  | heuristicRollback => "HeuristicRollback"
  | resourceFail => "ResourceFail"
  | resourceError => "ResourceError"
  | rollbackIntegrity => "RollbackIntegrity"
  | rollbackCommunication => "RollbackCommunication"
  | rollback => "Rollback"
  | rollbackOther => "RollbackOther"
  | rollbackDeadlock => "RollbackDeadlock"
  | protocol => "Protocol"
  | rollbackProtocol => "RollbackProtocol"
  | rollbackTimeout => "RollbackTimeout"
  | rollbackTransient => "RollbackTransient"
  | invalid => "Invalid"
  | noMigrate => "NoMigrate"
  | outside => "Outside"
  | async => "Async"
  | retry => "Retry"
  | duplicateId => "DuplicateId"
  | notATransaction => "NotATransaction"
  | ok => "Ok"
  | readOnly => "ReadOnly"

/-- The code as text for people: its label and its XA number. -/
def display (c : Code) : String :=
  c.label ++ "(" ++ toString c.xa ++ ")"

def isReadOnly : Code → Bool
  | readOnly => true
  | _ => false

/-- The more severe of two codes, the first on a tie. -/
def worse (a b : Code) : Code :=
  if b.severity < a.severity then b else a

/-- What the reduction of outcomes starts from: the mildest code, or, when a
request will never be answered, the most severe one. -/
def base (failed : Bool) : Code :=
  if failed then heuristicHazard else readOnly

/-- The most severe of the codes, starting from `base failed`. -/
def worst (codes : List Code) (failed : Bool) : Code :=
  codes.foldl worse (base failed)

/-- The most severe code of a list of replies, read from each with `code`. -/
def worstBy {α : Type} (code : α → Code) (replies : List α) (failed : Bool) : Code :=
  worst (replies.map code) failed

theorem mem_all (c : Code) : c ∈ all := by
  cases c <;> decide

end Code

end TwoPhase
