/-
# The registry of resources

Every configured resource, numbered from 1, and the managers of other domains
that take part here, under negative ids of their own. A request for a resource
goes to one of its instances or waits there; a domain takes any number of
requests.

No operation sends anything: each gives the messages it wants handed over, in
order.

Key definitions: `Registry.configure`, `Registry.dispatch`, `Registry.instanceDone`,
`Registry.ready`, `Registry.removeInstance`, `Registry.externalId`.
-/
import TwoPhase.Resource

namespace TwoPhase

/-- What became of a request. -/
inductive Dispatched
  | sent
  /-- The request waits for an instance. -/
  | queued
  /-- There is no such resource. -/
  | unknown
deriving DecidableEq, Repr, Inhabited

def Dispatched.label : Dispatched → String
  | sent => "Sent"
  | queued => "Queued"
  | unknown => "Unknown"

/-- Every resource and every other domain that takes part here. -/
structure Registry where
  resources : List Resource
  externals : List External
deriving DecidableEq, Repr, Inhabited

namespace Registry

/-- The configured resources, numbered from 1 in their order. -/
def configure (resources : List ResourceConfig) : Registry where
  resources := resources.mapIdx fun i config => ⟨i + 1, config, [], .zero, []⟩
  externals := []

/-- The configured resource of an id. -/
def resource? (r : Registry) (id : ResourceId) : Option Resource :=
  r.resources.find? fun x => x.id = id

/-- The domain that takes part under an id. -/
def external? (r : Registry) (id : ResourceId) : Option External :=
  r.externals.find? fun e => e.id = id

/-- A configured resource, or a domain that was given this id. -/
def isKnown (r : Registry) (id : ResourceId) : Bool :=
  if ResourceId.isExternal id then (r.external? id).isSome else (r.resource? id).isSome

/-- Change the resource of an id. -/
def modifyResource (r : Registry) (id : ResourceId) (f : Resource → Resource) : Registry :=
  { r with resources := modifyFirst (fun x => x.id = id) f r.resources }

/-- Number of requests that wait for an instance of a resource. -/
def pendingCount (r : Registry) (id : ResourceId) : Nat :=
  ((r.resource? id).map (·.waiting.length)).getD 0

/-- The first idle instance of a resource. -/
def idleInstance? (r : Registry) (id : ResourceId) : Option Instance :=
  (r.resource? id).bind fun x => x.instances.find? Instance.isIdle

/-- The id of another domain, a new one if it has none yet. -/
def externalId (r : Registry) (process : Handle) : Registry × ResourceId :=
  match r.externals.find? fun e => e.process = process with
  | some e => (r, e.id)
  | none =>
    let id : ResourceId := -(r.externals.length : Int) - 1
    ({ r with externals := r.externals ++ [⟨process, id⟩] }, id)

/-- Hand a request to its resource, or let it wait there. -/
def dispatch (r : Registry) (phase : Phase) (request : ResourceRequest) (now : Nat) :
    Registry × Dispatched × List Envelope :=
  let id := request.resource
  if ResourceId.isExternal id then
    match r.external? id with
    | none => (r, .unknown, [])
    | some e => (r, .sent, [⟨e.process, .request .external phase request⟩])
  else
    match r.resource? id with
    | none => (r, .unknown, [])
    | some x =>
      match x.instances.find? Instance.isIdle with
      | some i =>
        (r.modifyResource id fun x =>
            { x with instances := modifyFirst Instance.isIdle (·.assign request.correlation now) x.instances },
          .sent, [⟨i.process, .request .resource phase request⟩])
      | none =>
        (r.modifyResource id fun x => { x with waiting := x.waiting ++ [⟨phase, request⟩] }, .queued, [])

/-- Change a resource and let it serve what waits for it. -/
def serveAfter (r : Registry) (id : ResourceId) (now : Nat) (f : Resource → Resource) : Registry × List Envelope :=
  match r.resource? id with
  | none => (r, [])
  | some x =>
    let (x, out) := (f x).serve now
    (r.modifyResource id fun _ => x, out)

/-- An instance has replied: it is idle again, or on hold if it reported
failure, and gets the oldest request that waits. Replies from processes that
are no instance of the resource are passed over. -/
def instanceDone (r : Registry) (id : ResourceId) (pid : Pid) (code : Code) (timing : Timing) (now : Nat) :
    Registry × List Envelope :=
  match r.resource? id with
  | none => (r, [])
  | some x =>
    if x.instances.any (Instance.hasPid pid) then
      let finish (x : Resource) : Resource :=
        { x with instances := modifyFirst (Instance.hasPid pid) (·.finish code timing now) x.instances }
      if code = .resourceFail then (r.modifyResource id finish, []) else r.serveAfter id now finish
    else (r, [])

/-- An instance is ready for work; says whether there is such a resource. -/
def ready (r : Registry) (id : ResourceId) (process : Handle) (now : Nat) : Registry × Bool × List Envelope :=
  match r.resource? id with
  | none => (r, false, [])
  | some _ =>
    let (r, out) := r.serveAfter id now (·.takeReady process)
    (r, true, out)

/-- A process is started as an instance of a resource. -/
def spawned (r : Registry) (id : ResourceId) (process : Handle) : Registry :=
  r.modifyResource id (·.takeSpawned process)

/-- Remove the instance that a process runs, of the first resource that has
one; its metrics stay with the resource. -/
def removeInstance (r : Registry) (pid : Pid) : Registry × Option (ResourceId × Instance) :=
  match r.resources.find? fun x => x.instances.any (Instance.hasPid pid) with
  | none => (r, none)
  | some x =>
    match x.instances.find? (Instance.hasPid pid) with
    | none => (r, none)
    | some i =>
      (r.modifyResource x.id fun x =>
          { x with
            instances := x.instances.eraseP (Instance.hasPid pid)
            history := x.history.fold i.metrics },
        some (x.id, { i with state := .shutdown }))

end Registry

end TwoPhase
