/-
# Handling messages

What the manager does about each kind of message. A request that comes too
late for its transaction is answered without touching anything; otherwise the
sender takes the transaction over and its phases start.

Key definitions: `Manager.commitRequest`, `Manager.rollbackRequest`,
`Manager.involvedRequest`, `Manager.participantReplied`, `Manager.domainPrepare`,
`Manager.domainCommit`, `Manager.domainRollback`, `Manager.exited`.
-/
import TwoPhase.Manager.Settle

namespace TwoPhase.Manager

/-- Make sure that the transaction of `trid` is known. -/
def ensure (trid : Trid) : Act Unit :=
  modify fun m => { m with transactions := Table.ensure m.transactions trid m.clock }

/-- Involve resources in a branch, known or not, of a transaction that is made
known if it is not; gives the ids that are new to the branch. -/
def involve (trid : Trid) (ids : List ResourceId) : Act (List ResourceId) := do
  ensure trid
  match ← find? trid.gtrid with
  | none => return []
  | some t =>
    let (t, new) := t.involve trid ids
    update trid.gtrid fun _ => t
    return new

/-- Involve those of the resources that are known. -/
def involveKnown (trid : Trid) (ids : List ResourceId) : Act Unit :=
  modify fun m =>
    { m with
      transactions := m.transactions.modify trid.gtrid fun t =>
        (t.involve trid (ids.filter m.registry.isKnown)).1 }

/-- The client whose request drives the transaction from now on. -/
def takeOver (r : BranchNotice) (t : Transaction) : Transaction :=
  { t with owner := some r.process, correlation := r.correlation, trid := r.trid }

/-- The manager of another domain whose request drives the transaction from now on. -/
def takeOverForDomain (r : ResourceRequest) (t : Transaction) : Transaction :=
  { t with
    owner := some r.process
    correlation := r.correlation
    trid := r.trid
    asResource := some r.resource }

/-- Settle a transaction that a client wants committed. Without resources there
is nothing to do; a single participant decides alone; otherwise all of them
are asked to prepare. -/
def settle (g : Gtrid) (t : Transaction) : Act Unit := do
  if t.resourceCount = 0 then
    let m ← get
    let target := Target.ofTransaction t
    forget g
    replyNow target (target.commitReply m.process .ok .commit)
  else if t.isSingle then
    update g fun t => { t with stage := .commit }
    fanOut g .commit .onePhase (.commit g .client false)
  else
    update g fun t => { t with stage := .prepare }
    fanOut g .prepare .none (.prepare g .client)

/-- A client asks for commit. -/
def commitRequest (r : BranchNotice) : Act Unit := do
  let g := r.trid.gtrid
  ensure r.trid
  match ← find? g with
  | none => return
  | some t =>
    if t.stage ≠ .involved then
      let m ← get
      send r.process (.commitReply ⟨m.process, r.correlation, r.trid, .protocol, .commit⟩)
    else
      involveKnown r.trid r.involved
      update g (takeOver r)
      match ← find? g with
      | none => return
      | some t => settle g t

/-- A client asks for rollback. -/
def rollbackRequest (r : BranchNotice) : Act Unit := do
  let g := r.trid.gtrid
  ensure r.trid
  match ← find? g with
  | none => return
  | some t =>
    if t.stage ≠ .involved then
      let m ← get
      send r.process (.rollbackReply ⟨m.process, r.correlation, r.trid, .protocol, .rollback⟩)
    else
      involveKnown r.trid r.involved
      update g fun t => { takeOver r t with stage := .rollback }
      fanOut g .rollback .none (.rollback g .client none)

/-- Resources of a branch, none if there is no such branch. -/
def branchResources (trid : Trid) (t : Transaction) : List ResourceId :=
  ((t.branch? trid).map (·.resources.toList)).getD []

/-- Tell a client which resources are involved in a branch. A transaction that
is left without any resource is dropped. -/
def answerInvolved (r : BranchNotice) : Act Unit := do
  let g := r.trid.gtrid
  match ← find? g with
  | none => return
  | some t =>
    if t.stage = .involved ∧ t.isEmpty then forget g
    let m ← get
    send r.process (.involvedReply ⟨m.process, r.correlation, r.trid, branchResources r.trid t⟩)

/-- A client says which resources are involved in a branch. It owns the
transaction if nobody did. -/
def involvedRequest (r : BranchNotice) : Act Unit := do
  let g := r.trid.gtrid
  ensure r.trid
  update g fun t => { t with owner := t.owner.or (some r.process) }
  match ← find? g with
  | none => return
  | some t =>
    if t.stage = .involved then
      let known := branchResources r.trid t
      involveKnown r.trid (r.involved.filter fun id => !known.contains id)
    answerInvolved r

/-- A participant has replied. -/
def participantReplied (phase : Phase) (r : ResourceReply) : Act Unit := do
  if ResourceId.isLocal r.resource then
    onRegistry fun registry now =>
      let (registry, out) := registry.instanceDone r.resource r.process.pid r.state r.timing now
      (registry, (), out)
  match ← accept phase r with
  | none => return
  | some done => complete done

/-- An instance of a resource is ready for work. -/
def resourceReady (r : ResourceReady) : Act Unit := do
  discard <| onRegistry fun registry now => registry.ready r.resource r.process now

/-- What an instance is told that asks how its resource is configured. -/
def configurationFor (r : ResourceConfigurationRequest) (m : Manager) : ResourceConfigurationReply :=
  match m.registry.resource? r.resource with
  | some x =>
    ⟨m.process, r.correlation, r.resource, true, x.config.key, x.config.openinfo, x.config.closeinfo⟩
  | none => ⟨m.process, r.correlation, r.resource, false, "", "", ""⟩

/-- An instance asks how its resource is configured. -/
def resourceConfigurationRequest (r : ResourceConfigurationRequest) : Act Unit := do
  modify fun m => { m with registry := m.registry.spawned r.resource r.process }
  let m ← get
  send r.process (.resourceConfigurationReply (m.configurationFor r))

/-- The manager of another domain takes part in a transaction. -/
def externalInvolved (r : ExternalInvolved) : Act Unit := do
  let id ← onRegistry fun registry _ =>
    let (registry, id) := registry.externalId r.process
    (registry, id, [])
  ensure r.trid
  update r.trid.gtrid fun t =>
    if t.stage = .involved then (t.involve r.trid [id]).1 else t

/-- Answer the manager of another domain without touching the transaction. -/
def answerDomain (r : ResourceRequest) (phase : Phase) (code : Code) : Act Unit := do
  let m ← get
  let target : Target := ⟨some r.process, r.correlation, r.trid, some r.resource, m.clock⟩
  send r.process (target.domainReply m.process phase code m.clock)

/-- Take a transaction over that has no resources, and answer at once. -/
def answerEmpty (r : ResourceRequest) (phase : Phase) (t : Transaction) : Act Unit := do
  let m ← get
  let target := Target.ofTransaction (takeOverForDomain r t)
  forget r.trid.gtrid
  replyNow target (target.domainReply m.process phase .readOnly m.clock)

/-- The manager of another domain asks to prepare. -/
def domainPrepare (r : ResourceRequest) : Act Unit := do
  let g := r.trid.gtrid
  match ← find? g with
  | none => answerDomain r .prepare .readOnly
  | some t =>
    if t.stage ≠ .involved then answerDomain r .prepare .readOnly
    else
      update g (takeOverForDomain r)
      if t.resourceCount = 0 then answerEmpty r .prepare t
      else
        update g fun t => { t with stage := .prepare }
        fanOut g .prepare .none (.prepare g (.domain false))

/-- The manager of another domain asks to commit: a transaction that is
prepared, or both phases at once. -/
def domainCommit (r : ResourceRequest) : Act Unit := do
  let g := r.trid.gtrid
  match ← find? g with
  | none => answerDomain r .commit .readOnly
  | some t =>
    match t.stage with
    | .prepare =>
      if t.prepared then
        update g fun t => { takeOverForDomain r t with stage := .commit }
        fanOut g .commit .none (.commit g (.domain false) false)
      else answerDomain r .commit .protocol
    | .involved =>
      if Flags.contains r.flags .onePhase then
        update g (takeOverForDomain r)
        if t.resourceCount = 0 then answerEmpty r .commit t
        else if t.isSingle then
          update g fun t => { t with stage := .commit }
          fanOut g .commit .onePhase (.commit g (.domain true) false)
        else
          update g fun t => { t with stage := .prepare }
          fanOut g .prepare .none (.prepare g (.domain true))
      else answerDomain r .commit .protocol
    | .commit | .rollback => answerDomain r .commit .readOnly

/-- The manager of another domain asks to roll back. -/
def domainRollback (r : ResourceRequest) : Act Unit := do
  let g := r.trid.gtrid
  match ← find? g with
  | none => answerDomain r .rollback .readOnly
  | some t =>
    if t.stage.isDecided then answerDomain r .rollback .readOnly
    else
      update g fun t => { takeOverForDomain r t with stage := .rollback }
      fanOut g .rollback .none (.rollback g (.domain false) none)

/-- The request that an instance was at work on will never be answered. -/
def failInFlight (correlation : Correlation) : List Phase → Act Unit
  | [] => return
  | phase :: phases => do
    match ← miss phase correlation with
    | none => pure ()
    | some done => complete done
    failInFlight correlation phases

/-- Roll back a transaction whose owner is gone, if its outcome is still open.
Nobody gets a reply. -/
def abandon (g : Gtrid) : Act Unit := do
  match ← find? g with
  | none => return
  | some t =>
    if t.stage ≠ .involved then return
    update g fun t => { t with owner := none, stage := .rollback }
    fanOut g .rollback .none (.rollback g .client none)

/-- Pass on to the supervisor that a process has ended. -/
def report (e : ProcessExit) : Act Unit := do
  match (← get).supervisor with
  | some supervisor => send supervisor (.processExit e)
  | none => pure ()

/-- A process has ended: an instance of a resource, or else the owner of
transactions. -/
def exited (e : ProcessExit) : Act Unit := do
  let gone ← modifyGet fun m =>
    let (registry, gone) := m.registry.removeInstance e.pid
    (gone, { m with registry })
  match gone with
  | some (_, i) =>
    match i.inFlight with
    | some correlation => failInFlight correlation Phase.all
    | none => pure ()
    report e
  | none =>
    let m ← get
    (Table.ownedBy m.transactions e.pid).forM abandon

end TwoPhase.Manager
