/-
# What the manager does, task by task

Handling a message is a sequence of small pieces of work: the message is taken
in, a phase is started, a complete phase goes on, everything held is let go.
Each of them is a `Task`, and an agenda is the list of tasks that are still to
be done, the next one first. `Does m task m' new` says that doing one task
takes the manager from `m` to `m'` and puts the tasks `new` on the agenda, and
`Moves` does any number of them. There is one rule for each way a task can go,
so an invariant of the manager and its agenda is checked rule by rule
(`Moves.keeps`).

Journal calls that are refused have no rule: there the manager stops.

Key definitions: `Task`, `Manager.Handles`, `Manager.Finishes`, `Manager.Does`,
`Manager.Moves`, `Manager.Halts`.
Key theorems: `Manager.Moves.keeps`, `Manager.Moves.append`.
-/
import TwoPhase.Proofs.Acts

namespace TwoPhase

/-- A piece of work. -/
inductive Task
  | handle (message : Message)
  | start (d : Deferred)
  /-- A phase is complete, its transaction goes on. -/
  | finish (done : Completed ResourceReply Continuation)
  /-- A request of a phase will never be answered. -/
  | miss (phase : Phase) (correlation : Correlation)
  /-- The owner of a transaction is gone. -/
  | abandon (g : Gtrid)
  /-- Everything that is held is let go. -/
  | flush
  /-- The supervisor is told that an instance has ended. -/
  | report (e : ProcessExit)

/-- The transaction that a request names. -/
def Message.global? : Message → Option Gtrid
  | .commitRequest r | .rollbackRequest r | .involvedRequest r => some r.trid.gtrid
  | .externalInvolved r => some r.trid.gtrid
  | .request .external _ r => some r.trid.gtrid
  | _ => none

/-- The transaction that a task is about. -/
def Task.global? : Task → Option Gtrid
  | .handle message => message.global?
  | .start d => some d.global
  | .finish done => some done.token.global
  | .abandon g => some g
  | .miss _ _ | .flush | .report _ => none

/-- A journal refused a call, and is another one now. -/
inductive Journal.Refuses (j : Journal) : Journal → Prop
  | prepare {j' p now fault} (refused : j.prepare p now = (j', some fault)) : j.Refuses j'
  | remove {j' g now fault} (refused : j.remove g now = (j', some fault)) : j.Refuses j'
  | persist {j' now fault} (refused : j.persist now = (j', some fault)) : j.Refuses j'

namespace Manager

/-! ### Transactions as a request finds or leaves them -/

/-- The transaction of a request, a new one if there is none. -/
def opened (r : BranchNotice) (m : Manager) : Transaction :=
  m.transactions.opened r.trid m.clock

theorem opened_of_found {m : Manager} {r : BranchNotice} {t : Transaction}
    (found : m.transactions.get? r.trid.gtrid = some t) : m.opened r = t := by
  unfold opened Table.opened
  rw [found]
  rfl

/-- The transaction that a commit or rollback request drives. -/
def admitted (r : BranchNotice) (m : Manager) : Transaction :=
  takeOver r ((m.opened r).involve r.trid (r.involved.filter m.registry.isKnown)).1

/-- The transaction after a process has said what is involved in it. -/
def joined (r : BranchNotice) (m : Manager) : Transaction :=
  let t := { m.opened r with owner := (m.opened r).owner.or (some r.process) }
  let new := r.involved.filter fun id => !(branchResources r.trid t).contains id
  if t.stage = .involved then (t.involve r.trid (new.filter m.registry.isKnown)).1 else t

/-- The transaction after another domain has taken part in it under an id. -/
def joinedBy (r : ExternalInvolved) (id : ResourceId) (m : Manager) : Transaction :=
  let t := m.transactions.opened r.trid m.clock
  if t.stage = .involved then (t.involve r.trid [id]).1 else t

/-- What another domain is answered if its request is not taken over. -/
def refusal? (phase : Phase) (r : ResourceRequest) (m : Manager) : Option Code :=
  match m.transactions.get? r.trid.gtrid, phase with
  | none, _ => some .readOnly
  | some t, .prepare => if t.stage = .involved then none else some .readOnly
  | some t, .commit =>
    match t.stage with
    | .prepare => if t.prepared then none else some .protocol
    | .involved => if Flags.contains r.flags .onePhase then none else some .protocol
    | .commit | .rollback => some .readOnly
  | some t, .rollback => if t.stage.isDecided then some .readOnly else none

/-- A transaction without the participants that had nothing to do. -/
def voted (replies : List ResourceReply) (t : Transaction) : Transaction :=
  t.purge ((replies.filter (·.state.isReadOnly)).map fun r => (r.trid, r.resource))

/-- The worst vote of the participants that had something to do. -/
def vote (replies : List ResourceReply) (failed : Bool) : Code :=
  Code.worstBy (·.state) (replies.filter (!·.state.isReadOnly)) failed

/-- A reply to another domain that was never taken over. -/
def refusalTo (r : ResourceRequest) (phase : Phase) (code : Code) (m : Manager) : Message :=
  (⟨some r.process, r.correlation, r.trid, some r.resource, m.clock⟩ : Target).domainReply m.process phase code
    m.clock

/-- A registry is told that an instance has replied, if an instance has. -/
def noteReply (r : ResourceReply) (m : Manager) : Manager :=
  if ResourceId.isLocal r.resource then
    m.withRegistry (m.registry.instanceDone r.resource r.process.pid r.state r.timing m.clock)
  else m

theorem coordinators_noteReply (m : Manager) (r : ResourceReply) : (m.noteReply r).coordinators = m.coordinators := by
  unfold noteReply withRegistry
  split
  · rw [deliverAll_eq]
  · rfl

theorem held_noteReply (m : Manager) (r : ResourceReply) : (m.noteReply r).held = m.held := by
  unfold noteReply withRegistry
  split
  · rw [deliverAll_eq]
  · rfl

/-- What is to be done about a group, if it is complete. -/
def toFinish : Option (Completed ResourceReply Continuation) → List Task
  | none => []
  | some done => [.finish done]

/-- What is to be done once something is held. -/
def toFlush (m : Manager) : List Task :=
  if m.held.isFull then [.flush] else []

/-- What is to be done once a reply is held for the owner, if there is one. -/
def toFlushFor (target : Target) (m : Manager) : List Task :=
  match target.owner with
  | some _ => m.toFlush
  | none => []

theorem eq_flush_of_mem_toFlush {m : Manager} {task : Task} (h : task ∈ m.toFlush) : task = .flush := by
  unfold toFlush at h
  split at h
  · exact List.mem_singleton.1 h
  · cases h

theorem eq_flush_of_mem_toFlushFor {m : Manager} {target : Target} {task : Task} (h : task ∈ m.toFlushFor target) :
    task = .flush := by
  unfold toFlushFor at h
  split at h
  · exact eq_flush_of_mem_toFlush h
  · cases h

/-- What is to be done once an instance has ended. -/
def toMiss (e : ProcessExit) (i : Instance) : List Task :=
  (match i.inFlight with
    | some c => Phase.all.map (.miss · c)
    | none => []) ++ [.report e]

/-! ### The rules -/

/-- Taking a message in. -/
inductive Handles (m : Manager) : Message → Manager → List Task → Prop
  | commitLate {r t} (found : m.transactions.get? r.trid.gtrid = some t) (late : t.stage ≠ .involved) :
      Handles m (.commitRequest r)
        (m.deliver ⟨r.process, .commitReply ⟨m.process, r.correlation, r.trid, .protocol, .commit⟩⟩) []
  | commitNothing {r j} (fresh : (m.opened r).stage = .involved) (alone : (m.admitted r).resourceCount = 0)
      (forgets : m.journal.remove r.trid.gtrid m.clock = (j, none)) :
      Handles m (.commitRequest r)
        ((m.drop r.trid.gtrid j).deliver
          ⟨r.process, .commitReply ⟨m.process, r.correlation, r.trid, .ok, .commit⟩⟩) []
  | commitOnePhase {r} (fresh : (m.opened r).stage = .involved) (some : (m.admitted r).resourceCount ≠ 0)
      (single : (m.admitted r).isSingle = true) :
      Handles m (.commitRequest r) (m.put r.trid.gtrid { m.admitted r with stage := .commit })
        [.start ⟨r.trid.gtrid, .commit, .onePhase, .commit r.trid.gtrid .client false⟩]
  | commitTwoPhase {r} (fresh : (m.opened r).stage = .involved) (some : (m.admitted r).resourceCount ≠ 0)
      (many : (m.admitted r).isSingle = false) :
      Handles m (.commitRequest r) (m.put r.trid.gtrid { m.admitted r with stage := .prepare })
        [.start ⟨r.trid.gtrid, .prepare, .none, .prepare r.trid.gtrid .client⟩]
  | rollbackLate {r t} (found : m.transactions.get? r.trid.gtrid = some t) (late : t.stage ≠ .involved) :
      Handles m (.rollbackRequest r)
        (m.deliver ⟨r.process, .rollbackReply ⟨m.process, r.correlation, r.trid, .protocol, .rollback⟩⟩) []
  | rollback {r} (fresh : (m.opened r).stage = .involved) :
      Handles m (.rollbackRequest r) (m.put r.trid.gtrid { m.admitted r with stage := .rollback })
        [.start ⟨r.trid.gtrid, .rollback, .none, .rollback r.trid.gtrid .client none⟩]
  | involved {r} (kept : ¬ ((m.joined r).stage = .involved ∧ (m.joined r).isEmpty = true)) :
      Handles m (.involvedRequest r)
        ((m.put r.trid.gtrid (m.joined r)).deliver
          ⟨r.process, .involvedReply ⟨m.process, r.correlation, r.trid, branchResources r.trid (m.joined r)⟩⟩) []
  | involvedNothing {r j} (fresh : (m.joined r).stage = .involved) (empty : (m.joined r).isEmpty = true)
      (forgets : m.journal.remove r.trid.gtrid m.clock = (j, none)) :
      Handles m (.involvedRequest r)
        ((m.drop r.trid.gtrid j).deliver
          ⟨r.process, .involvedReply ⟨m.process, r.correlation, r.trid, branchResources r.trid (m.joined r)⟩⟩) []
  | answered {side phase r p group} (waits : (m.coordinators.get phase).find? r.correlation = some (p, group)) :
      Handles m (.reply side phase r)
        (((m.noteReply r).note (.answered group.token.global phase r)).withCoordinator phase
          ((m.coordinators.get phase).accept r.correlation r).1)
        (toFinish ((m.coordinators.get phase).accept r.correlation r).2)
  | unexpected {side phase r} (nobody : (m.coordinators.get phase).find? r.correlation = none) :
      Handles m (.reply side phase r)
        ((m.noteReply r).withCoordinator phase ((m.coordinators.get phase).accept r.correlation r).1)
        (toFinish ((m.coordinators.get phase).accept r.correlation r).2)
  | ready {r registry known out} (takes : m.registry.ready r.resource r.process m.clock = (registry, known, out)) :
      Handles m (.resourceReady r) (m.withRegistry (registry, out)) []
  | configured {r registry} (takes : m.registry.spawned r.resource r.process = registry) :
      Handles m (.resourceConfigurationRequest r)
        ({ m with registry }.deliver
          ⟨r.process, .resourceConfigurationReply ({ m with registry }.configurationFor r)⟩) []
  | externalInvolved {r registry id} (takes : m.registry.externalId r.process = (registry, id)) :
      Handles m (.externalInvolved r) ({ m with registry }.put r.trid.gtrid (m.joinedBy r id)) []
  | domainRefused {phase r code} (refused : m.refusal? phase r = some code) :
      Handles m (.request .external phase r) (m.deliver ⟨r.process, m.refusalTo r phase code⟩) []
  | domainNothing {phase r t j} (found : m.transactions.get? r.trid.gtrid = some t)
      (accepted : m.refusal? phase r = none) (fresh : t.stage = .involved) (settles : phase ≠ .rollback)
      (alone : t.resourceCount = 0) (forgets : m.journal.remove r.trid.gtrid m.clock = (j, none)) :
      Handles m (.request .external phase r)
        ((m.drop r.trid.gtrid j).deliver
          ⟨r.process, (Target.ofTransaction (takeOverForDomain r t)).domainReply m.process phase .readOnly m.clock⟩)
        []
  | domainPrepare {r t} (found : m.transactions.get? r.trid.gtrid = some t) (fresh : t.stage = .involved)
      (some : t.resourceCount ≠ 0) :
      Handles m (.request .external .prepare r)
        (m.put r.trid.gtrid { takeOverForDomain r t with stage := .prepare })
        [.start ⟨r.trid.gtrid, .prepare, .none, .prepare r.trid.gtrid (.domain false)⟩]
  | domainCommit {r t} (found : m.transactions.get? r.trid.gtrid = some t) (waits : t.stage = .prepare)
      (prepared : t.prepared = true) :
      Handles m (.request .external .commit r)
        (m.put r.trid.gtrid { takeOverForDomain r t with stage := .commit })
        [.start ⟨r.trid.gtrid, .commit, .none, .commit r.trid.gtrid (.domain false) false⟩]
  | domainOnePhase {r t} (found : m.transactions.get? r.trid.gtrid = some t) (fresh : t.stage = .involved)
      (flagged : Flags.contains r.flags .onePhase = true) (some : t.resourceCount ≠ 0)
      (single : t.isSingle = true) :
      Handles m (.request .external .commit r)
        (m.put r.trid.gtrid { takeOverForDomain r t with stage := .commit })
        [.start ⟨r.trid.gtrid, .commit, .onePhase, .commit r.trid.gtrid (.domain true) false⟩]
  | domainTwoPhase {r t} (found : m.transactions.get? r.trid.gtrid = some t) (fresh : t.stage = .involved)
      (flagged : Flags.contains r.flags .onePhase = true) (some : t.resourceCount ≠ 0)
      (many : t.isSingle = false) :
      Handles m (.request .external .commit r)
        (m.put r.trid.gtrid { takeOverForDomain r t with stage := .prepare })
        [.start ⟨r.trid.gtrid, .prepare, .none, .prepare r.trid.gtrid (.domain true)⟩]
  | domainRollback {r t} (found : m.transactions.get? r.trid.gtrid = some t)
      (undecided : t.stage.isDecided = false) :
      Handles m (.request .external .rollback r)
        (m.put r.trid.gtrid { takeOverForDomain r t with stage := .rollback })
        [.start ⟨r.trid.gtrid, .rollback, .none, .rollback r.trid.gtrid (.domain false) none⟩]
  | instanceExited {e registry id i} (gone : m.registry.removeInstance e.pid = (registry, some (id, i))) :
      Handles m (.processExit e) { m with registry } (toMiss e i)
  | ownerExited {e registry} (gone : m.registry.removeInstance e.pid = (registry, none)) :
      Handles m (.processExit e) { m with registry } ((Table.ownedBy m.transactions e.pid).map .abandon)
  | shown {r} :
      Handles m (.configurationRequest r)
        (m.deliver ⟨r.process, .configurationReply ⟨m.process, r.correlation, m.snapshot r.resourceName⟩⟩) []
  | passedOver {message} (nobody : Handler.ofKind? message.kind = none) : Handles m message m []

/-- Going on after a phase is complete. -/
inductive Finishes (m : Manager) : Completed ResourceReply Continuation → Manager → List Task → Prop
  | gone {done} (absent : m.transactions.get? done.token.global = none) : Finishes m done m []
  | rolledBack {g driver vote replies failed t j} (found : m.transactions.get? g = some t)
      (forgets : m.journal.remove g m.clock = (j, none)) :
      Finishes m ⟨.rollback g driver vote, replies, failed⟩
        ((m.drop g j).answer (.ofTransaction t)
          ((Target.ofTransaction t).rolledBack m.process driver vote
            (Code.worstBy (·.state) replies (!failed.isEmpty)) m.clock)) []
  | committed {g driver replies failed t j} (found : m.transactions.get? g = some t)
      (forgets : m.journal.remove g m.clock = (j, none)) :
      Finishes m ⟨.commit g driver false, replies, failed⟩
        ((m.drop g j).answer (.ofTransaction t)
          ((Target.ofTransaction t).committed m.process driver
            (Code.worstBy (·.state) replies (!failed.isEmpty)) m.clock)) []
  | committedGated {g driver replies failed t j m'} (found : m.transactions.get? g = some t)
      (forgets : m.journal.remove g m.clock = (j, none))
      (then_ : m' = (m.drop g j).enqueue (.ofTransaction t)
        ((Target.ofTransaction t).committed m.process driver
          (Code.worstBy (·.state) replies (!failed.isEmpty)) m.clock)) :
      Finishes m ⟨.commit g driver true, replies, failed⟩ m' (m'.toFlushFor (.ofTransaction t))
  | nothingToCommit {g driver replies failed t j} (found : m.transactions.get? g = some t)
      (idle : vote replies (!failed.isEmpty) = .readOnly) (forgets : m.journal.remove g m.clock = (j, none)) :
      Finishes m ⟨.prepare g driver, replies, failed⟩
        ((m.drop g j).answer (.ofTransaction t)
          ((Target.ofTransaction t).settled m.process driver m.clock)) []
  | preparedForClient {g replies failed t t' j m'} (found : m.transactions.get? g = some t)
      (agreed : vote replies (!failed.isEmpty) = .ok) (left : t' = voted replies t)
      (logs : m.journal.prepare (.ofTransaction t') m.clock = (j, none))
      (then_ : m' = (((m.record t' j).put g { t' with stage := .commit, prepared := true }).hold
          ⟨g, .commit, .none, .commit g .client true⟩).enqueue (.ofTransaction t')
        ((Target.ofTransaction t').commitReply m.process .ok .prepare)) :
      Finishes m ⟨.prepare g .client, replies, failed⟩ m' (m'.toFlushFor (.ofTransaction t'))
  | preparedForDomain {g replies failed t t' j m'} (found : m.transactions.get? g = some t)
      (agreed : vote replies (!failed.isEmpty) = .ok) (left : t' = voted replies t)
      (logs : m.journal.prepare (.ofTransaction t') m.clock = (j, none))
      (then_ : m' = ((m.record t' j).put g { t' with prepared := true }).enqueue (.ofTransaction t')
        ((Target.ofTransaction t').domainReply m.process .prepare .ok m.clock)) :
      Finishes m ⟨.prepare g (.domain false), replies, failed⟩ m' (m'.toFlushFor (.ofTransaction t'))
  | preparedOnePhase {g replies failed t t' j m'} (found : m.transactions.get? g = some t)
      (agreed : vote replies (!failed.isEmpty) = .ok) (left : t' = voted replies t)
      (logs : m.journal.prepare (.ofTransaction t') m.clock = (j, none))
      (then_ : m' = ((m.record t' j).put g { t' with stage := .commit, prepared := true }).hold
        ⟨g, .commit, .none, .commit g (.domain true) false⟩) :
      Finishes m ⟨.prepare g (.domain true), replies, failed⟩ m' m'.toFlush
  | opposedForDomain {g replies failed t} (found : m.transactions.get? g = some t)
      (active : vote replies (!failed.isEmpty) ≠ .readOnly) (opposed : vote replies (!failed.isEmpty) ≠ .ok) :
      Finishes m ⟨.prepare g (.domain false), replies, failed⟩
        ((m.put g (voted replies t)).answer (.ofTransaction t)
          ((Target.ofTransaction t).domainReply m.process .prepare (vote replies (!failed.isEmpty)) m.clock)) []
  | opposed {g driver replies failed t} (found : m.transactions.get? g = some t)
      (active : vote replies (!failed.isEmpty) ≠ .readOnly) (opposed : vote replies (!failed.isEmpty) ≠ .ok)
      (ours : driver ≠ .domain false) :
      Finishes m ⟨.prepare g driver, replies, failed⟩
        (m.put g { voted replies t with stage := .rollback })
        [.start ⟨g, .rollback, .none, .rollback g driver (some (vote replies (!failed.isEmpty)))⟩]

/-- Doing a task. -/
inductive Does (m : Manager) : Task → Manager → List Task → Prop
  | handle {message m' new} (h : Handles m message m' new) : Does m (.handle message) m' new
  | finish {done m' new} (h : Finishes m done m' new) : Does m (.finish done) m' new
  | startNothing {d} (absent : m.transactions.get? d.global = none) : Does m (.start d) m []
  | startAlone {d t} (found : m.transactions.get? d.global = some t) (alone : t.participants = []) :
      Does m (.start d) m [.finish ⟨d.token, [], []⟩]
  | start {d t c} (found : m.transactions.get? d.global = some t) (some : t.participants ≠ [])
      (waits : (m.coordinators.get d.phase).register d.token
        (outstanding m.lastCorrelation t.participants) = (c, none)) :
      Does m (.start d) ((m.askAll d.phase d.flags t.participants).withCoordinator d.phase c) []
  | missed {phase correlation p group} (waits : (m.coordinators.get phase).find? correlation = some (p, group)) :
      Does m (.miss phase correlation)
        ((m.note (.missed group.token.global phase correlation)).withCoordinator phase
          ((m.coordinators.get phase).fail correlation).1)
        (toFinish ((m.coordinators.get phase).fail correlation).2)
  | missNothing {phase correlation} (nobody : (m.coordinators.get phase).find? correlation = none) :
      Does m (.miss phase correlation) (m.withCoordinator phase ((m.coordinators.get phase).fail correlation).1)
        (toFinish ((m.coordinators.get phase).fail correlation).2)
  | abandonNothing {g} (absent : m.transactions.get? g = none) : Does m (.abandon g) m []
  | abandonLate {g t} (found : m.transactions.get? g = some t) (late : t.stage ≠ .involved) :
      Does m (.abandon g) m []
  | abandon {g t} (found : m.transactions.get? g = some t) (fresh : t.stage = .involved) :
      Does m (.abandon g) (m.put g { t with owner := none, stage := .rollback })
        [.start ⟨g, .rollback, .none, .rollback g .client none⟩]
  | flushNothing (empty : m.held.isEmpty = true) : Does m .flush m []
  | flush {j} (some : m.held.isEmpty = false) (persists : m.journal.persist m.clock = (j, none)) :
      Does m .flush (m.letGo j) (m.held.deferred.map .start ++ [.flush])
  | reportNothing {e} (nobody : m.supervisor = none) : Does m (.report e) m []
  | report {e supervisor} (watched : m.supervisor = some supervisor) :
      Does m (.report e) (m.deliver ⟨supervisor, .processExit e⟩) []

/-- Doing tasks of an agenda, the first one first. -/
inductive Moves : Manager × List Task → Manager × List Task → Prop
  | refl (x) : Moves x x
  | head {m task todo m' new y} (h : Does m task m' new) (rest : Moves (m', new ++ todo) y) :
      Moves (m, task :: todo) y

/-- The next task cannot be done: the journal refuses the call it needs. -/
def Stuck (x : Manager × List Task) : Prop :=
  ∃ task todo, x.2 = task :: todo ∧ ∀ m' new, ¬ Does x.1 task m' new

/-- What a refused call leaves of a manager that was at a task: nothing is noted
any more, and only the transaction of the task may have been changed before. -/
structure HaltsAt (m : Manager) (task : Task) (m' : Manager) : Prop where
  trace : m'.trace = m.trace
  journal : m.journal.Refuses m'.journal
  entries : ∀ g, task.global? ≠ some g → m'.transactions.get? g = m.transactions.get? g

/-- A call for a transaction was refused after its entry was changed. -/
theorem haltsAt {m : Manager} {task : Task} {g : Gtrid} {table : Table} {j : Journal} (about : task.global? = some g)
    (refused : m.journal.Refuses j) (others : ∀ g', g ≠ g' → table.get? g' = m.transactions.get? g') :
    m.HaltsAt task { m with transactions := table, journal := j } where
  trace := rfl
  journal := refused
  entries g' hg' := others g' fun h => hg' (h ▸ about)

/-- The manager stops at the next task. -/
def Halts (x : Manager × List Task) (m' : Manager) : Prop :=
  ∃ task todo, x.2 = task :: todo ∧ x.1.HaltsAt task m'

theorem Halts.trace {x : Manager × List Task} {m' : Manager} (h : Halts x m') : m'.trace = x.1.trace := by
  obtain ⟨task, todo, -, halts⟩ := h
  exact halts.trace

namespace Moves

theorem trans {x y z : Manager × List Task} (h : Moves x y) (h' : Moves y z) : Moves x z := by
  induction h with
  | refl => exact h'
  | head h _ ih => exact .head h (ih h')

theorem single {m m' : Manager} {task : Task} {new : List Task} (h : Does m task m' new) :
    Moves (m, [task]) (m', new) :=
  .head h (by rw [List.append_nil]; exact .refl _)

/-- Tasks further down the agenda wait. -/
theorem append {x y : Manager × List Task} (h : Moves x y) (later : List Task) :
    Moves (x.1, x.2 ++ later) (y.1, y.2 ++ later) := by
  induction h with
  | refl => exact .refl _
  | head h _ ih =>
    have := ih
    simp only [List.append_assoc] at this
    exact .head h this

/-- A task that can be done is done, unless the manager stops before it. -/
theorem next {m : Manager} {task : Task} {todo : List Task} {y : Manager × List Task} (h : Moves (m, task :: todo) y)
    (ended : y.2 = [] ∨ Stuck y) (able : ∃ m' new, Does m task m' new) :
    ∃ m' new, Does m task m' new ∧ Moves (m', new ++ todo) y := by
  cases h with
  | refl =>
    obtain ⟨m', new, hd⟩ := able
    rcases ended with h | ⟨task', todo', h, stuck⟩
    · cases h
    · cases h
      exact absurd hd (stuck m' new)
  | head hd rest => exact ⟨_, _, hd, rest⟩

/-- What every task keeps, the whole agenda keeps. -/
theorem keeps {P : Manager → List Task → Prop}
    (step : ∀ {m task todo m' new}, P m (task :: todo) → Does m task m' new → P m' (new ++ todo))
    {x y : Manager × List Task} (h : Moves x y) : P x.1 x.2 → P y.1 y.2 := by
  induction h with
  | refl => exact id
  | head h _ ih => exact fun hP => ih (step hP h)

end Moves

end Manager

end TwoPhase
