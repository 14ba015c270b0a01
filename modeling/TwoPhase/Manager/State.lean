/-
# The state of the manager

`Manager` is everything that the manager knows. What it does is an `Act`: it
changes the state and may end in a fault; what was changed before a fault stays
changed. Everything that leaves the manager, and everything that it has the
journal do, is recorded in one trace, the newest effect first, so that it can
be said what came before what.

Key definitions: `Manager`, `Manager.Act`, `Manager.Effect`, `Manager.send`,
`Manager.askParticipant`, `Manager.forget`.
-/
import TwoPhase.Coordinator
import TwoPhase.HoldBuffer
import TwoPhase.Registry

namespace TwoPhase

/-- The groups of one phase, waiting for replies of participants. -/
abbrev PhaseCoordinator := Coordinator ResourceReply Continuation

/-- One coordinator for each phase. -/
structure Coordinators where
  prepare : PhaseCoordinator
  commit : PhaseCoordinator
  rollback : PhaseCoordinator
deriving Inhabited

namespace Coordinators

def empty : Coordinators := ⟨.empty, .empty, .empty⟩

def get (c : Coordinators) : Phase → PhaseCoordinator
  | .prepare => c.prepare
  | .commit => c.commit
  | .rollback => c.rollback

def set (c : Coordinators) (x : PhaseCoordinator) : Phase → Coordinators
  | .prepare => { c with prepare := x }
  | .commit => { c with commit := x }
  | .rollback => { c with rollback := x }

/-- Number of groups that wait, over all phases. -/
def waiting (c : Coordinators) : Nat :=
  c.prepare.size + c.commit.size + c.rollback.size

end Coordinators

/-- Something that the manager did. -/
inductive Effect
  /-- The journal logged that a transaction is prepared. -/
  | logged (record : Prepared)
  /-- The journal was told to forget a transaction. -/
  | forgotten (global : Gtrid)
  /-- The journal was made durable. -/
  | persisted
  /-- A request for a participant was handed to the registry. -/
  | dispatched (phase : Phase) (request : ResourceRequest) (outcome : Dispatched)
  /-- A reply was taken to the group of a transaction that waited for it. -/
  | answered (global : Gtrid) (phase : Phase) (reply : ResourceReply)
  /-- A request that the group of a transaction waited for will never be answered. -/
  | missed (global : Gtrid) (phase : Phase) (correlation : Correlation)
  /-- A message was handed over, `direct` if its queue took it at once. -/
  | delivered (envelope : Envelope) (direct : Bool)
deriving DecidableEq, Repr

/-- The transaction manager. -/
structure Manager where
  /-- The manager's own handle, the sender of all it sends. -/
  process : Handle
  /-- Is told about instances that have ended. -/
  supervisor : Option Handle
  transactions : Table
  registry : Registry
  coordinators : Coordinators
  journal : Journal
  /-- What waits for the journal to be durable. -/
  held : HoldBuffer
  lastCorrelation : Correlation
  /-- Queues that take no message at once. -/
  blocked : SortedSet QueueId
  /-- The time, in microseconds since the epoch. -/
  clock : Nat
  /-- What was done so far, the newest first. -/
  trace : List Effect
deriving Inhabited

namespace Manager

/-- A manager that has seen nothing yet. -/
def new (resources : List ResourceConfig) (journal : Journal) (batch : Nat) (process : Handle)
    (supervisor : Option Handle) : Manager where
  process
  supervisor
  transactions := SortedMap.empty
  registry := .configure resources
  coordinators := .empty
  journal
  held := .ofBatch batch
  lastCorrelation := 0
  blocked := SortedMap.empty
  clock := 0
  trace := []

/-- Treat a queue as full. -/
def block (q : QueueId) (m : Manager) : Manager :=
  { m with blocked := SortedSet.add m.blocked q }

/-- Treat a queue as having room again. -/
def unblock (q : QueueId) (m : Manager) : Manager :=
  { m with blocked := m.blocked.erase q }

/-- What the manager does. -/
abbrev Act := EStateM Fault Manager

/-- Add to the trace. -/
def note (e : Effect) (m : Manager) : Manager :=
  { m with trace := e :: m.trace }

/-- Hand over a message. -/
def deliver (e : Envelope) (m : Manager) : Manager :=
  m.note (.delivered e (!m.blocked.contains e.destination.queue))

/-- Hand over messages in their order. -/
def deliverAll (out : List Envelope) (m : Manager) : Manager :=
  out.foldl (fun m e => m.deliver e) m

/-- Send a message, or leave it pending if its queue takes none. -/
def send (destination : Handle) (message : Message) : Act Unit :=
  modify (deliver ⟨destination, message⟩)

/-- Send messages in their order. -/
def sendAll (out : List Envelope) : Act Unit :=
  modify (deliverAll out)

/-- A correlation that was not used before. -/
def nextCorrelation : Act Correlation :=
  modifyGet fun m => (m.lastCorrelation + 1, { m with lastCorrelation := m.lastCorrelation + 1 })

/-- Have the journal do something. -/
def callJournal (effect : Effect) (call : Journal → Nat → Journal × Option Fault) : Act Unit := do
  let m ← get
  match call m.journal m.clock with
  | (journal, none) => set ({ m with journal }.note effect)
  | (journal, some fault) =>
    set { m with journal }
    throw fault

/-- Make the journal durable. -/
def persist : Act Unit :=
  callJournal .persisted Journal.persist

/-- Log that a transaction is prepared. -/
def logPrepared (t : Transaction) : Act Unit :=
  callJournal (.logged (.ofTransaction t)) fun j now => j.prepare (.ofTransaction t) now

/-- The transaction of a global id. -/
def find? (g : Gtrid) : Act (Option Transaction) :=
  return (← get).transactions.get? g

/-- Change the transaction of a global id. -/
def update (g : Gtrid) (f : Transaction → Transaction) : Act Unit :=
  modify fun m => { m with transactions := m.transactions.modify g f }

/-- Drop a transaction, and have the journal forget it. -/
def forget (g : Gtrid) : Act Unit := do
  modify fun m => { m with transactions := m.transactions.erase g }
  callJournal (.forgotten g) fun j now => j.remove g now

/-- Change the registry and hand over what it wants sent. -/
def onRegistry {α : Type} (f : Registry → Nat → Registry × α × List Envelope) : Act α := do
  let m ← get
  let (registry, a, out) := f m.registry m.clock
  set { m with registry }
  sendAll out
  return a

/-- Hand a request for a participant to the registry. -/
def dispatchRequest (phase : Phase) (request : ResourceRequest) : Act Dispatched := do
  let m ← get
  let (registry, outcome, out) := m.registry.dispatch phase request m.clock
  set ({ m with registry }.note (.dispatched phase request outcome))
  sendAll out
  return outcome

/-- Change the coordinator of a phase. -/
def onCoordinator {α : Type} (phase : Phase) (f : PhaseCoordinator → PhaseCoordinator × α) : Act α :=
  modifyGet fun m =>
    let (c, a) := f (m.coordinators.get phase)
    (a, { m with coordinators := m.coordinators.set c phase })

/-- Note what became of the request of a correlation, if a group waits for it;
`effect` is given the transaction of the group. -/
def noteOutcome (phase : Phase) (correlation : Correlation) (effect : Gtrid → Effect) (m : Manager) : Manager :=
  match (m.coordinators.get phase).find? correlation with
  | some (_, group) => m.note (effect group.token.global)
  | none => m

/-- A reply has arrived; gives the group that is complete now, if one is. -/
def accept (phase : Phase) (r : ResourceReply) : Act (Option (Completed ResourceReply Continuation)) := do
  modify (noteOutcome phase r.correlation (.answered · phase r))
  onCoordinator phase (·.accept r.correlation r)

/-- A request will never be answered; gives the group that is complete now, if
one is. -/
def miss (phase : Phase) (correlation : Correlation) : Act (Option (Completed ResourceReply Continuation)) := do
  modify (noteOutcome phase correlation (.missed · phase correlation))
  onCoordinator phase (·.fail correlation)

/-- Make a request for one participant and hand it to its resource; says what
is outstanding now, and whether there is such a resource. -/
def askParticipant (phase : Phase) (flags : Flags) (participant : Trid × ResourceId) :
    Act (Outstanding × Bool) := do
  let correlation ← nextCorrelation
  let request : ResourceRequest :=
    { process := (← get).process, correlation, trid := participant.1, resource := participant.2, flags }
  let outcome ← dispatchRequest phase request
  return (⟨correlation, participant.2⟩, outcome != .unknown)

end Manager

end TwoPhase
