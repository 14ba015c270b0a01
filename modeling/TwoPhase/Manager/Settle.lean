/-
# Settling transactions

A phase of a transaction sends one request to each participant and goes on
when all of them are answered:

    prepare -- all read only --> reply, forget
            -- ok -------------> log, persist, reply, commit --> reply, forget
            -- anything else --> rollback ---------------------> reply, forget

The same steps serve a client and the manager of another domain that treats
this one as a resource.

What waits for the journal is let go by `flush`. The phases it starts may be
complete on the spot, with nobody to ask, and then hold replies of their own;
they never log and never hold another phase, because such a phase has no
reply in it that says `ok`. So the release of held replies, `releaseReplies`,
is all that they need, and the steps are written with the flush they use as
an argument.

Key definitions: `Manager.startPhase`, `Manager.complete`, `Manager.fanOut`,
`Manager.flush`.
-/
import TwoPhase.Manager.State

namespace TwoPhase.Manager

/-- Where and how the reply for a transaction goes. -/
structure Target where
  owner : Option Handle
  correlation : Correlation
  trid : Trid
  asResource : Option ResourceId
  started : Nat
deriving DecidableEq, Repr

namespace Target

def ofTransaction (t : Transaction) : Target :=
  ⟨t.owner, t.correlation, t.trid, t.asResource, t.started⟩

def commitReply (t : Target) (sender : Handle) (state : Code) (stage : ReplyStage) : Message :=
  .commitReply { process := sender, correlation := t.correlation, trid := t.trid, state, stage }

def rollbackReply (t : Target) (sender : Handle) (state : Code) : Message :=
  .rollbackReply { process := sender, correlation := t.correlation, trid := t.trid, state, stage := .rollback }

/-- The reply to the manager of another domain, as the resource it knows this
one as. -/
def domainReply (t : Target) (sender : Handle) (phase : Phase) (state : Code) (now : Nat) : Message :=
  .reply .external phase
    { process := sender, correlation := t.correlation, trid := t.trid, resource := t.asResource.getD 0, state,
      timing := ⟨t.started, now⟩ }

end Target

/-- A commit that nobody had anything to do in is done. -/
def commitOutcome : Code → Code
  | .readOnly => .ok
  | code => code

/-- A rollback of something that is already gone is done. -/
def rollbackOutcome : Code → Code
  | .readOnly | .notATransaction => .ok
  | code => code

namespace Target

/-- What the owner is told after a commit phase. -/
def committed (t : Target) (sender : Handle) (driver : Driver) (code : Code) (now : Nat) : Message :=
  match driver with
  | .client => t.commitReply sender (commitOutcome code) .commit
  | .domain _ => t.domainReply sender .commit code now

/-- What the owner is told after a rollback phase, which the outcome `vote` of
a prepare phase may have led to. -/
def rolledBack (t : Target) (sender : Handle) (driver : Driver) (vote : Option Code) (code : Code)
    (now : Nat) : Message :=
  match driver, vote with
  | .client, some vote => t.commitReply sender ((rollbackOutcome code).worse vote) .rollback
  | .client, none => t.rollbackReply sender (rollbackOutcome code)
  | .domain true, some vote => t.domainReply sender .commit (code.worse vote) now
  | .domain _, _ => t.domainReply sender .rollback code now

/-- What the owner is told if no participant had anything to do. -/
def settled (t : Target) (sender : Handle) (driver : Driver) (now : Nat) : Message :=
  match driver with
  | .client => t.commitReply sender .ok .commit
  | .domain false => t.domainReply sender .prepare .readOnly now
  | .domain true => t.domainReply sender .commit .readOnly now

end Target

/-- Send a reply to the owner, if there is one. -/
def replyNow (target : Target) (message : Message) : Act Unit :=
  match target.owner with
  | some owner => send owner message
  | none => pure ()

/-- Hold a reply to the owner, if there is one, until the journal is durable. -/
def replyDurably (flush : Act Unit) (target : Target) (message : Message) : Act Unit :=
  match target.owner with
  | some owner => do
    modify fun m => { m with held := m.held.enqueue ⟨owner, message⟩ }
    if (← get).held.isFull then flush
  | none => pure ()

/-- Record that requests will never be answered; `done` is the group that was
complete before, if one was. -/
def failAll (phase : Phase) (done : Option (Completed ResourceReply Continuation)) :
    List Correlation → Act (Option (Completed ResourceReply Continuation))
  | [] => return done
  | c :: cs => do
    let now ← miss phase c
    failAll phase (now.or done) cs

/-- Ask every participant of a transaction and wait for the replies. Requests
for resources that do not exist count as failed; if none is left to wait for,
gives the group that is complete. -/
def startPhase (g : Gtrid) (phase : Phase) (flags : Flags) (token : Continuation) :
    Act (Option (Completed ResourceReply Continuation)) := do
  match ← find? g with
  | none => return none
  | some t =>
    let asked ← t.participants.mapM (askParticipant phase flags)
    let done ← onCoordinator phase (·.register token (asked.map (·.1)))
    failAll phase done ((asked.filter (!·.2)).map (·.1.correlation))

/-- The rollback phase is complete. -/
def finishRollback (g : Gtrid) (driver : Driver) (vote : Option Code) (replies : List ResourceReply)
    (failed : Bool) : Act Unit := do
  match ← find? g with
  | none => return
  | some t =>
    let m ← get
    let target := Target.ofTransaction t
    let code := Code.worstBy (·.state) replies failed
    forget g
    replyNow target (target.rolledBack m.process driver vote code m.clock)

/-- The commit phase is complete. -/
def finishCommit (flush : Act Unit) (g : Gtrid) (driver : Driver) (gated : Bool)
    (replies : List ResourceReply) (failed : Bool) : Act Unit := do
  match ← find? g with
  | none => return
  | some t =>
    let m ← get
    let target := Target.ofTransaction t
    let code := Code.worstBy (·.state) replies failed
    let message := target.committed m.process driver code m.clock
    forget g
    if gated then replyDurably flush target message else replyNow target message

/-- Roll a transaction back after a vote against it. -/
def rollBack (g : Gtrid) (driver : Driver) (vote : Code) : Act Unit := do
  update g fun t => { t with stage := .rollback }
  match ← startPhase g .rollback .none (.rollback g driver (some vote)) with
  | none => return
  | some done => finishRollback g driver (some vote) done.replies done.isFailed

/-- Every participant with something to commit voted for it. -/
def finishPrepareOk (flush : Act Unit) (g : Gtrid) (driver : Driver) (t : Transaction) : Act Unit := do
  let m ← get
  let target := Target.ofTransaction t
  logPrepared t
  match driver with
  | .client =>
    update g fun t => { t with stage := .commit, prepared := true }
    -- the reply that the commit will be carried out leaves first, the requests right after it
    modify fun m => { m with held := m.held.defer ⟨g, .commit, .none, .commit g driver true⟩ }
    replyDurably flush target (target.commitReply m.process .ok .prepare)
  | .domain false =>
    update g fun t => { t with prepared := true }
    replyDurably flush target (target.domainReply m.process .prepare .ok m.clock)
  | .domain true =>
    update g fun t => { t with stage := .commit, prepared := true }
    modify fun m => { m with held := m.held.defer ⟨g, .commit, .none, .commit g driver false⟩ }
    if (← get).held.isFull then flush

/-- Go on with a transaction as its participants voted. -/
def followVote (flush : Act Unit) (g : Gtrid) (driver : Driver) (t : Transaction) (vote : Code) : Act Unit := do
  let m ← get
  let target := Target.ofTransaction t
  match vote with
  | .readOnly =>
    forget g
    replyNow target (target.settled m.process driver m.clock)
  | .ok => finishPrepareOk flush g driver t
  | vote =>
    match driver with
    -- the manager of the other domain decides, and will ask for a rollback
    | .domain false => replyNow target (target.domainReply m.process .prepare vote m.clock)
    | _ => rollBack g driver vote

/-- The prepare phase is complete. Participants that had nothing to do take no
part in what follows. -/
def finishPrepare (flush : Act Unit) (g : Gtrid) (driver : Driver) (replies : List ResourceReply)
    (failed : Bool) : Act Unit := do
  match ← find? g with
  | none => return
  | some t =>
    let idle := replies.filter (·.state.isReadOnly)
    let active := replies.filter (!·.state.isReadOnly)
    let t := t.purge (idle.map fun r => (r.trid, r.resource))
    update g fun _ => t
    followVote flush g driver t (Code.worstBy (·.state) active failed)

/-- Go on after a phase is complete. -/
def completeWith (flush : Act Unit) (done : Completed ResourceReply Continuation) : Act Unit :=
  match done.token with
  | .prepare g driver => finishPrepare flush g driver done.replies done.isFailed
  | .commit g driver gated => finishCommit flush g driver gated done.replies done.isFailed
  | .rollback g driver vote => finishRollback g driver vote done.replies done.isFailed

/-- Start a phase, and go on at once if it is complete on the spot. -/
def fanOutWith (flush : Act Unit) (g : Gtrid) (phase : Phase) (flags : Flags) (token : Continuation) :
    Act Unit := do
  match ← startPhase g phase flags token with
  | none => return
  | some done => completeWith flush done

/-- Make the journal durable and let go of everything that is held; gives the
phases that may start now. -/
def release : Act (List Deferred) := do
  persist
  let m ← get
  set { m with held := m.held.release }
  sendAll m.held.replies
  return m.held.deferred

/-- Let go of held replies. -/
def releaseReplies : Act Unit := do
  if (← get).held.isEmpty then return
  discard release

/-- Let go of everything that is held: make the journal durable, send the
replies, then start the phases. -/
def flush : Act Unit := do
  if (← get).held.isEmpty then return
  let deferred ← release
  deferred.forM fun d => fanOutWith releaseReplies d.global d.phase d.flags d.token
  releaseReplies

/-- Start a phase of a transaction. -/
def fanOut (g : Gtrid) (phase : Phase) (flags : Flags) (token : Continuation) : Act Unit :=
  fanOutWith flush g phase flags token

/-- Go on after a phase of a transaction. -/
def complete (done : Completed ResourceReply Continuation) : Act Unit :=
  completeWith flush done

end TwoPhase.Manager
