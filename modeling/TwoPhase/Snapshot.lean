/-
# Snapshots

What the manager shows of itself to an administrator: its transactions, its
resources with their instances, the other domains it knows, and what is still
waiting.

Key definitions: `Snapshot`.
-/
import TwoPhase.Journal.Record
import TwoPhase.Metrics
import TwoPhase.Resource.Config

namespace TwoPhase

structure BranchView where
  trid : Trid
  resources : List ResourceId
deriving DecidableEq, Repr, Inhabited

structure TransactionView where
  trid : Trid
  owner : Option Handle
  stage : Stage
  prepared : Bool
  branches : List BranchView
  started : Nat
deriving DecidableEq, Repr, Inhabited

structure InstanceView where
  process : Handle
  state : InstanceState
  inFlight : Option Correlation
  metrics : Metrics
deriving DecidableEq, Repr, Inhabited

structure ResourceView where
  id : ResourceId
  key : String
  name : String
  openinfo : String
  closeinfo : String
  concurrency : Nat
  instances : List InstanceView
  /-- Over the resource's whole history, instances that are gone included. -/
  metrics : Metrics
  /-- Requests that wait for an idle instance. -/
  pending : Nat
deriving DecidableEq, Repr, Inhabited

/-- The manager at one point in time. -/
structure Snapshot where
  transactions : List TransactionView
  resources : List ResourceView
  externals : List External
  /-- Replies that wait for the journal to be made durable. -/
  persistentReplies : Nat
  /-- Fan-outs that wait for the journal to be made durable. -/
  persistentRequests : Nat
  /-- Groups of requests that wait for replies. -/
  coordinating : Nat
  journal : JournalStatistics
  inDoubt : List Prepared
deriving DecidableEq, Repr, Inhabited

end TwoPhase
