/-
# Configuration of resources

How a resource is configured, what state one of its instances is in, and the
id that the manager of another domain goes by here.

Key definitions: `ResourceConfig`, `InstanceState`, `External`.
-/
import TwoPhase.Named
import TwoPhase.Ids

namespace TwoPhase

/-- Configuration of one resource. -/
structure ResourceConfig where
  /-- Type of the resource manager. -/
  key : String
  /-- Name the resource is known by. -/
  name : String
  openinfo : String
  closeinfo : String
  /-- Number of instances that serve it. -/
  instances : Nat
deriving DecidableEq, Repr, Inhabited

/-- What an instance of a resource is doing. -/
inductive InstanceState
  /-- Started, not yet ready for work. -/
  | spawned
  | idle
  /-- At work on a request. -/
  | busy
  /-- Reported failure, gets no work until it is ready again. -/
  | error
  | shutdown
deriving DecidableEq, Repr, Inhabited

def InstanceState.name : InstanceState → String
  | spawned => "spawned"
  | idle => "idle"
  | busy => "busy"
  | error => "error"
  | shutdown => "shutdown"

instance : Named InstanceState where
  all := [.spawned, .idle, .busy, .error, .shutdown]
  name := InstanceState.name
  find_name a := by cases a <;> decide

/-- The manager of another domain, and the id it takes part under here. -/
structure External where
  process : Handle
  id : ResourceId
deriving DecidableEq, Repr, Inhabited

end TwoPhase
