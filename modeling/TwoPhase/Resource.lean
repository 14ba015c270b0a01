/-
# Resources

A configured resource with its instances. A request for it goes to the first
instance that is idle; if there is none it waits, and is served in its turn as
soon as one is idle again.

Nothing here sends anything: each operation gives the messages it wants handed
over, in order.

Key definitions: `Resource`, `Resource.serve`, `Resource.takeReady`,
`Resource.takeSpawned`, `Resource.totalMetrics`.
-/
import TwoPhase.FirstMatch
import TwoPhase.Outbox
import TwoPhase.Resource.Instance

namespace TwoPhase

/-- A request that waits for an instance. -/
structure Waiting where
  phase : Phase
  request : ResourceRequest
deriving DecidableEq, Repr, Inhabited

/-- A configured resource with its instances. -/
structure Resource where
  id : ResourceId
  config : ResourceConfig
  instances : List Instance
  /-- Metrics of the instances that are gone. -/
  history : Metrics
  /-- Requests that wait for an idle instance, the oldest first. -/
  waiting : List Waiting
deriving DecidableEq, Repr, Inhabited

namespace Resource

/-- Metrics over the whole history of the resource. -/
def totalMetrics (r : Resource) : Metrics :=
  r.instances.foldl (fun m i => m.fold i.metrics) r.history

/-- Hand waiting requests to idle instances, the oldest first, until one of
the two is used up; gives the instances, the requests that still wait, and
what is to be handed over. -/
def serveWaiting (now : Nat) (instances : List Instance) :
    List Waiting → List Instance × List Waiting × List Envelope
  | [] => (instances, [], [])
  | w :: ws =>
    match instances.find? Instance.isIdle with
    | none => (instances, w :: ws, [])
    | some i =>
      let (instances, left, out) :=
        serveWaiting now (modifyFirst Instance.isIdle (·.assign w.request.correlation now) instances) ws
      (instances, left, ⟨i.process, .request .resource w.phase w.request⟩ :: out)

/-- Hand waiting requests to idle instances. -/
def serve (now : Nat) (r : Resource) : Resource × List Envelope :=
  let (instances, waiting, out) := serveWaiting now r.instances r.waiting
  ({ r with instances, waiting }, out)

/-- The instance of a pid is ready for work; an unknown one is taken on. -/
def takeReady (process : Handle) (r : Resource) : Resource :=
  if r.instances.any (Instance.hasPid process.pid) then
    { r with
      instances := modifyFirst (Instance.hasPid process.pid) (fun i => { i with process, state := .idle })
        r.instances }
  else { r with instances := r.instances ++ [.new process .idle] }

/-- A process is started as an instance that is not ready yet. -/
def takeSpawned (process : Handle) (r : Resource) : Resource :=
  if r.instances.any (Instance.hasPid process.pid) then r
  else { r with instances := r.instances ++ [.new process .spawned] }

end Resource

end TwoPhase
