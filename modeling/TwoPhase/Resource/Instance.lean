/-
# Instances of resources

An instance is a process that serves a resource, one request at a time. It is
idle, at work on a request, or on hold after it reported failure.

Key definitions: `Instance`, `Instance.assign`, `Instance.finish`.
-/
import TwoPhase.Message

namespace TwoPhase

/-- A running instance of a resource. -/
structure Instance where
  process : Handle
  state : InstanceState
  metrics : Metrics
  /-- Correlation of the request that the instance is at work on. -/
  inFlight : Option Correlation
  /-- When the instance was given its request. -/
  assignedAt : Option Nat
deriving DecidableEq, Repr, Inhabited

namespace Instance

/-- An instance in a given state that had no work yet. -/
def new (process : Handle) (state : InstanceState) : Instance :=
  ⟨process, state, .zero, none, none⟩

def isIdle (i : Instance) : Bool := i.state == .idle

/-- The instance is run by the process of this id. -/
def hasPid (pid : Pid) (i : Instance) : Bool := i.process.pid == pid

/-- Give the instance a request. -/
def assign (correlation : Correlation) (now : Nat) (i : Instance) : Instance :=
  { i with state := .busy, inFlight := some correlation, assignedAt := some now }

/-- Account for a reply. An instance that reports failure gets no work until
it is ready again. -/
def finish (code : Code) (timing : Timing) (now : Nat) (i : Instance) : Instance where
  process := i.process
  state := if code = .resourceFail then .error else .idle
  metrics :=
    { resource := i.metrics.resource.record timing.elapsed
      roundtrip := match i.assignedAt with
        | some start => i.metrics.roundtrip.record (now - start)
        | none => i.metrics.roundtrip }
  inFlight := none
  assignedAt := none

end Instance

end TwoPhase
