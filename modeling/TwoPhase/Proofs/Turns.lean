/-
# What a task does to one transaction

Seen from a single transaction there are few things that a task can do. They
are the rules of `Turn`: `Turn g task p q` says that `task` takes the part of
the transaction `g` from `p` to `q`. Most tasks are about another transaction
and leave the part as it is; one task, the flush, does something to all of
them. Every task is a turn for every transaction (`Manager.Does.turn`), so
what all turns of a transaction keep holds in every run.

Key definitions: `Opening`, `Task.Settles`, `Turn`, `Manager.Tidy`.
Key theorem: `Manager.Does.turn`.
-/
import TwoPhase.Proofs.Course
import TwoPhase.Proofs.Jobs

namespace TwoPhase

/-- The phase that settling a transaction opens with, and its stage then. -/
inductive Opening (g : Gtrid) (driver : Driver) : Stage → Deferred → Prop
  | onePhase : Opening g driver .commit ⟨g, .commit, .onePhase, .commit g driver false⟩
  | twoPhase : Opening g driver .prepare ⟨g, .prepare, .none, .prepare g driver⟩
  | rollback : Opening g driver .rollback ⟨g, .rollback, .none, .rollback g driver none⟩

/-- What has a transaction settled for a client, and by which phase: the client
asks for it, or it is the owner and is gone. -/
inductive Task.Settles (g : Gtrid) : Task → Phase → Prop
  | commit {r phase} (named : r.trid.gtrid = g) : Settles g (.handle (.commitRequest r)) phase
  | rollback {r phase} (named : r.trid.gtrid = g) : Settles g (.handle (.rollbackRequest r)) phase
  | abandon : Settles g (.abandon g) .rollback

theorem Task.Settles.cases {g : Gtrid} {task : Task} {phase : Phase} (h : task.Settles g phase) :
    (∃ r, (task = .handle (.commitRequest r) ∨ task = .handle (.rollbackRequest r)) ∧ r.trid.gtrid = g) ∨
      task = .abandon g ∧ phase = .rollback := by
  cases h with
  | commit named => exact .inl ⟨_, .inl rfl, named⟩
  | rollback named => exact .inl ⟨_, .inr rfl, named⟩
  | abandon => exact .inr ⟨rfl, rfl⟩

open Manager in
/-- What a task can do to the part of a transaction. -/
inductive Turn (g : Gtrid) : Task → Part → Part → Prop
  | rest {task p} : Turn g task p p
  | opened {message t J s} (stage : t.stage = .involved) (prepared : t.prepared = false)
      (asResource : t.asResource = none) : Turn g (.handle message) ⟨none, J, s⟩ ⟨some t, J, s⟩
  | changed {message t t' J s} (stage : t'.stage = t.stage) (prepared : t'.prepared = t.prepared)
      (asResource : t'.asResource = t.asResource) (branches : t.stage ≠ .involved → t'.branches = t.branches) :
      Turn g (.handle message) ⟨some t, J, s⟩ ⟨some t', J, s⟩
  | dropped {message e J s} (fresh : ∀ t ∈ e, t.stage = .involved) :
      Turn g (.handle message) ⟨e, J, s⟩ ⟨none, J, .forgotten :: s⟩
  | begun {task e t d J s} (fresh : ∀ t ∈ e, t.stage = .involved)
      (listed : (∃ message, task = .handle message) ∨ ∃ t₀, e = some t₀ ∧ t.branches = t₀.branches) (opening : Opening g .client t.stage d)
      (prepared : t.prepared = e.any (·.prepared)) (asResource : t.asResource = e.bind (·.asResource))
      (cause : task.Settles g d.phase) :
      Turn g task ⟨e, J, s⟩ ⟨some t, .starting d ::ₘ J, s⟩
  | begunForDomain {phase r b t t' d J s} (named : r.trid.gtrid = g) (settles : phase ≠ .rollback)
      (fresh : t.stage = .involved) (opening : Opening g (.domain b) t'.stage d)
      (prepared : t'.prepared = t.prepared) (asResource : t'.asResource.isSome = true) :
      Turn g (.handle (.request .external phase r)) ⟨some t, J, s⟩ ⟨some t', .starting d ::ₘ J, s⟩
  | domainCommit {r t J s} (named : r.trid.gtrid = g) (waits : t.stage = .prepare) (prepared : t.prepared = true) :
      Turn g (.handle (.request .external .commit r)) ⟨some t, J, s⟩
        ⟨some { takeOverForDomain r t with stage := .commit },
          .starting ⟨g, .commit, .none, .commit g (.domain false) false⟩ ::ₘ J, s⟩
  | domainRollback {r t J s} (named : r.trid.gtrid = g) (undecided : t.stage.isDecided = false) :
      Turn g (.handle (.request .external .rollback r)) ⟨some t, J, s⟩
        ⟨some { takeOverForDomain r t with stage := .rollback },
          .starting ⟨g, .rollback, .none, .rollback g (.domain false) none⟩ ::ₘ J, s⟩
  | startNothing {d J s} : Turn g (.start d) ⟨none, .starting d ::ₘ J, s⟩ ⟨none, J, s⟩
  | startAlone {d t J s} (alone : t.participants = []) :
      Turn g (.start d) ⟨some t, .starting d ::ₘ J, s⟩ ⟨some t, .finishing ⟨d.token, [], []⟩ ::ₘ J, s⟩
  | started {d t process last J s} (active : t.participants ≠ []) :
      Turn g (.start d) ⟨some t, .starting d ::ₘ J, s⟩
        ⟨some t, .waiting d.phase ⟨d.token, outstanding last t.participants, [], []⟩ ::ₘ J,
          ((requests process d.flags last t.participants).map (.asked d.phase)).reverse ++ s⟩
  | answered {side phase r group p rest e J s} (waits : group.take? r.correlation = some (p, rest)) :
      Turn g (.handle (.reply side phase r)) ⟨e, .waiting phase group ::ₘ J, s⟩
        ⟨e, Job.ofGroup phase { rest with replies := rest.replies ++ [r] } ::ₘ J, .answered phase r :: s⟩
  | missed {phase x group p rest e J s} (waits : group.take? x = some (p, rest)) :
      Turn g (.miss phase x) ⟨e, .waiting phase group ::ₘ J, s⟩
        ⟨e, Job.ofGroup phase { rest with failed := rest.failed ++ [p] } ::ₘ J, .missed phase x :: s⟩
  | gone {done J s} : Turn g (.finish done) ⟨none, .finishing done ::ₘ J, s⟩ ⟨none, J, s⟩
  | settled {done t J s}
      (final : (∀ g' driver, done.token ≠ .prepare g' driver) ∨ vote done.replies (!done.failed.isEmpty) = .readOnly) :
      Turn g (.finish done) ⟨some t, .finishing done ::ₘ J, s⟩ ⟨none, J, .forgotten :: s⟩
  | agreed {driver gated replies failed t J s} (agreed : vote replies (!failed.isEmpty) = .ok)
      (ours : driver ≠ .domain false) :
      Turn g (.finish ⟨.prepare g driver, replies, failed⟩)
        ⟨some t, .finishing ⟨.prepare g driver, replies, failed⟩ ::ₘ J, s⟩
        ⟨some { voted replies t with stage := .commit, prepared := true },
          .held ⟨g, .commit, .none, .commit g driver gated⟩ ::ₘ J, .logged (.ofTransaction (voted replies t)) :: s⟩
  | agreedForDomain {replies failed t J s} (agreed : vote replies (!failed.isEmpty) = .ok) :
      Turn g (.finish ⟨.prepare g (.domain false), replies, failed⟩)
        ⟨some t, .finishing ⟨.prepare g (.domain false), replies, failed⟩ ::ₘ J, s⟩
        ⟨some { voted replies t with prepared := true }, J, .logged (.ofTransaction (voted replies t)) :: s⟩
  | opposedForDomain {replies failed t J s} :
      Turn g (.finish ⟨.prepare g (.domain false), replies, failed⟩)
        ⟨some t, .finishing ⟨.prepare g (.domain false), replies, failed⟩ ::ₘ J, s⟩ ⟨some (voted replies t), J, s⟩
  | opposed {driver replies failed t J s} (active : vote replies (!failed.isEmpty) ≠ .readOnly)
      (opposed : vote replies (!failed.isEmpty) ≠ .ok) (ours : driver ≠ .domain false) :
      Turn g (.finish ⟨.prepare g driver, replies, failed⟩)
        ⟨some t, .finishing ⟨.prepare g driver, replies, failed⟩ ::ₘ J, s⟩
        ⟨some { voted replies t with stage := .rollback },
          .starting ⟨g, .rollback, .none, .rollback g driver (some (vote replies (!failed.isEmpty)))⟩ ::ₘ J, s⟩
  | persisted {e J s} : Turn g .flush ⟨e, J, s⟩ ⟨e, J.map Job.released, .persisted :: s⟩

/-- What was done stays done. -/
theorem Turn.story {g : Gtrid} {task : Task} {p q : Part} (h : Turn g task p q) :
    ∃ later, q.story = later ++ p.story := by
  cases h with
  | dropped => exact ⟨[_], rfl⟩
  | started => exact ⟨_, rfl⟩
  | answered => exact ⟨[_], rfl⟩
  | missed => exact ⟨[_], rfl⟩
  | settled => exact ⟨[_], rfl⟩
  | agreed => exact ⟨[_], rfl⟩
  | agreedForDomain => exact ⟨[_], rfl⟩
  | persisted => exact ⟨[_], rfl⟩
  | _ => exact ⟨[], rfl⟩

namespace Manager

/-! ### Tidiness -/

/-- Groups are numbered, and what is held or about to start is for the
transaction that its continuation names. -/
structure Tidy (m : Manager) (todo : List Task) : Prop where
  numbered : ∀ phase, (m.coordinators.get phase).Numbered
  held : ∀ d ∈ m.held.deferred, d.token.global = d.global
  starts : ∀ d, .start d ∈ todo → d.token.global = d.global

namespace Tidy

variable {m m' : Manager} {task : Task} {todo new : List Task}

theorem tail (h : m.Tidy (task :: todo)) : m.Tidy todo :=
  ⟨h.numbered, h.held, fun d hd => h.starts d (List.mem_cons_of_mem _ hd)⟩

/-- What changes neither groups nor what is held keeps tidiness, if what it
puts on the agenda is tidy. -/
theorem congr (h : m.Tidy todo) (new : List Task) (hc : m'.coordinators = m.coordinators) (hd : m'.held.deferred = m.held.deferred)
    (hn : ∀ d, .start d ∈ new → d.token.global = d.global) : m'.Tidy (new ++ todo) where
  numbered phase := by rw [hc]; exact h.numbered phase
  held := by rw [hd]; exact h.held
  starts d hd := by
    rcases List.mem_append.1 hd with hd | hd
    · exact hn d hd
    · exact h.starts d hd

/-- Changing the coordinator of a phase keeps tidiness, if its groups stay numbered. -/
theorem withCoordinator (h : m.Tidy todo) {phase : Phase} {c : PhaseCoordinator} (hc : c.Numbered)
    (hn : ∀ d, .start d ∈ new → d.token.global = d.global) : (m.withCoordinator phase c).Tidy (new ++ todo) where
  numbered phase' := by
    have h' := h.numbered phase'
    cases phase <;> cases phase' <;> first | exact hc | exact h'
  held := h.held
  starts d hd := by
    rcases List.mem_append.1 hd with hd | hd
    · exact hn d hd
    · exact h.starts d hd

theorem not_start_toFinish {done : Option (Completed ResourceReply Continuation)} (d : Deferred)
    (h : Task.start d ∈ toFinish done) : d.token.global = d.global := by
  cases done <;> simp [toFinish] at h

theorem handles {message : Message} (h : m.Tidy todo) (hd : Handles m message m' new) : m'.Tidy (new ++ todo) := by
  cases hd with
  | answered =>
    refine withCoordinator (m := (m.noteReply _).note _) (h.congr [] ?_ ?_ (by simp)) ?_ not_start_toFinish
    · exact coordinators_noteReply m _
    · exact congrArg (·.deferred) (held_noteReply m _)
    · exact Coordinator.numbered_settle (h.numbered _) _ _
  | unexpected =>
    refine withCoordinator (m := m.noteReply _) (h.congr [] ?_ ?_ (by simp)) ?_ not_start_toFinish
    · exact coordinators_noteReply m _
    · exact congrArg (·.deferred) (held_noteReply m _)
    · exact Coordinator.numbered_settle (h.numbered _) _ _
  | ready =>
    refine h.congr _ ?_ ?_ (by simp) <;> rw [Manager.withRegistry, deliverAll_eq]
  | domainNothing =>
    refine h.congr _ ?_ ?_ (by simp) <;> rfl
  | instanceExited => exact h.congr _ rfl rfl (by simp [toMiss]; split <;> simp [Phase.all])
  | _ => exact h.congr _ rfl rfl (by simp [Continuation.global])

/-- Holding a phase of the transaction that its continuation names. -/
theorem hold (h : m.Tidy todo) {d : Deferred} (hd : d.token.global = d.global) : (m.hold d).Tidy todo where
  numbered := h.numbered
  held d' hd' := by
    rcases List.mem_append.1 hd' with hd' | hd'
    · exact h.held d' hd'
    · rw [List.mem_singleton.1 hd']
      exact hd
  starts := h.starts

theorem answer (h : m.Tidy todo) (target : Target) (message : Message) : (m.answer target message).Tidy todo := by
  rw [answer_eq]
  exact ⟨h.numbered, h.held, h.starts⟩

theorem enqueue (h : m.Tidy todo) (target : Target) (message : Message) : (m.enqueue target message).Tidy todo := by
  rw [enqueue_eq]
  exact ⟨h.numbered, h.held, h.starts⟩

theorem flushes (h : m.Tidy todo) (hn : ∀ task ∈ new, task = .flush) : m.Tidy (new ++ todo) :=
  h.congr _ rfl rfl fun d hd => by cases hn _ hd

theorem finishes {done : Completed ResourceReply Continuation} (h : m.Tidy todo) (hd : Finishes m done m' new) :
    m'.Tidy (new ++ todo) := by
  have hput : ∀ (t t' : Transaction) j g, ((m.record t j).put g t').Tidy todo := fun t t' j g =>
    ⟨h.numbered, h.held, h.starts⟩
  have hvoted : ∀ (t : Transaction) g, (m.put g t).Tidy todo := fun t g => ⟨h.numbered, h.held, h.starts⟩
  have hdrop : ∀ j g, (m.drop g j).Tidy todo := fun j g => ⟨h.numbered, h.held, h.starts⟩
  cases hd with
  | gone => exact h
  | rolledBack => exact (hdrop _ _).answer _ _
  | committed => exact (hdrop _ _).answer _ _
  | committedGated found forgets then_ =>
    subst then_
    exact ((hdrop _ _).enqueue _ _).flushes fun _ => eq_flush_of_mem_toFlushFor
  | nothingToCommit => exact (hdrop _ _).answer _ _
  | preparedForClient found agreed left logs then_ =>
    subst then_
    exact ((hold (hput _ _ _ _) rfl).enqueue _ _).flushes fun _ => eq_flush_of_mem_toFlushFor
  | preparedForDomain found agreed left logs then_ =>
    subst then_
    exact ((hput _ _ _ _).enqueue _ _).flushes fun _ => eq_flush_of_mem_toFlushFor
  | preparedOnePhase found agreed left logs then_ =>
    subst then_
    exact (hold (hput _ _ _ _) rfl).flushes fun _ => eq_flush_of_mem_toFlush
  | opposedForDomain => exact (hvoted _ _).answer _ _
  | opposed => exact h.congr _ rfl rfl (by simp [Continuation.global])

/-- Every task leaves the manager and its agenda tidy. -/
theorem does (h : m.Tidy (task :: todo)) (hd : Does m task m' new) : m'.Tidy (new ++ todo) := by
  cases hd with
  | handle hd => exact h.tail.handles hd
  | finish hd => exact h.tail.finishes hd
  | startNothing => exact h.tail
  | startAlone => exact h.tail.congr _ rfl rfl (by simp)
  | @start d t c found active waits =>
    have hc : c = ((m.coordinators.get d.phase).register d.token (outstanding m.lastCorrelation t.participants)).1 := by
      rw [waits]
    refine withCoordinator (m := m.askAll d.phase d.flags t.participants) (h.tail.congr [] ?_ ?_ (by simp))
      ?_ (by simp)
    · exact coordinators_askAll m _ _ _
    · exact congrArg (·.deferred) (held_askAll m _ _ _)
    · rw [hc]
      exact Coordinator.numbered_register (h.numbered _) _ _
  | missed =>
    exact withCoordinator (m := m.note _) (h.tail.congr [] rfl rfl (by simp))
      (Coordinator.numbered_settle (h.numbered _) _ _) not_start_toFinish
  | missNothing => exact h.tail.withCoordinator (Coordinator.numbered_settle (h.numbered _) _ _) not_start_toFinish
  | flush =>
    refine ⟨fun phase => ?_, ?_, fun d hd => ?_⟩
    · unfold letGo
      rw [deliverAll_eq]
      exact h.numbered phase
    · rw [deferred_letGo]
      simp
    · simp only [List.mem_append, List.mem_map, Task.start.injEq, exists_eq_right, List.mem_singleton, reduceCtorEq,
        or_false] at hd
      rcases hd with hd | hd
      · exact h.held d hd
      · exact h.tail.starts d hd
  | flushNothing => exact h.tail
  | abandon => exact h.tail.congr _ rfl rfl (by simp [Continuation.global])
  | _ => exact h.tail.congr _ rfl rfl (by simp)

end Tidy

/-! ### Every task is a turn -/

section Turns

variable {m m' : Manager} {g g' : Gtrid} {t : Transaction} {d : Deferred} {task : Task} {todo new : List Task}

theorem part_of_found (found : m.transactions.get? g = some t) :
    m.part g todo = ⟨some t, m.jobs g todo, m.story g⟩ := by
  unfold part
  rw [found]

theorem turn_of_eq {p q : Part} (h : q = p) : Turn g task p q := h ▸ .rest

theorem turn_to {p q q' : Part} (h : Turn g task p q) (hq : q' = q) : Turn g task p q' := hq ▸ h

theorem turn_put
    (h : g' = g → Turn g task (m.part g todo) ⟨some t, m.jobs g todo, m.story g⟩) :
    Turn g task (m.part g todo) ((m.put g' t).part g todo) := by
  by_cases hg : g' = g
  · have := h hg
    subst hg
    rw [part_put_self]
    exact this
  · rw [part_put_of_ne hg]
    exact .rest

/-- A transaction is put into the table, and a phase of it is about to start. -/
theorem turn_put_start (own : d.global = g')
    (h : g' = g → Turn g task (m.part g todo) ⟨some t, .starting d ::ₘ m.jobs g todo, m.story g⟩) :
    Turn g task (m.part g todo) ((m.put g' t).part g ([.start d] ++ todo)) := by
  by_cases hg : g' = g
  · have := h hg
    subst hg
    have hj : (Task.start d).job? g' = some (.starting d) := by simp [Task.job?, own]
    rw [List.singleton_append, part_cons_some hj, part_put_self]
    exact this
  · have hj : (Task.start d).job? g = none := by simp [Task.job?, own, hg]
    rw [List.singleton_append, part_cons_none hj, part_put_of_ne hg]
    exact .rest

theorem turn_drop {j : Journal}
    (h : g' = g → Turn g task (m.part g todo) ⟨none, m.jobs g todo, .forgotten :: m.story g⟩) :
    Turn g task (m.part g todo) ((m.drop g' j).part g todo) := by
  by_cases hg : g' = g
  · have := h hg
    subst hg
    rw [part_drop_self]
    exact this
  · rw [part_drop_of_ne hg]
    exact .rest

/-! ### Transactions before they are settled -/

theorem fresh_of_opened (todo : List Task) {r : BranchNotice} (named : r.trid.gtrid = g) (fresh : (m.opened r).stage = .involved) :
    ∀ t ∈ (m.part g todo).entry, t.stage = .involved := by
  subst named
  intro t ht
  rw [← fresh, opened_of_found (r := r) ht]

theorem prepared_opened (todo : List Task) {r : BranchNotice} (named : r.trid.gtrid = g) :
    (m.opened r).prepared = (m.part g todo).entry.any (·.prepared) := by
  subst named
  unfold opened Table.opened part
  cases m.transactions.get? r.trid.gtrid <;> rfl

theorem asResource_opened (todo : List Task) {r : BranchNotice} (named : r.trid.gtrid = g) :
    (m.opened r).asResource = (m.part g todo).entry.bind (·.asResource) := by
  subst named
  unfold opened Table.opened part
  cases m.transactions.get? r.trid.gtrid <;> rfl

theorem stage_joined (r : BranchNotice) : (m.joined r).stage = (m.opened r).stage := by
  unfold joined
  simp only
  split <;> rfl

/-- A client that opens a transaction for settling. -/
theorem turn_begun {r : BranchNotice} {message : Message} {stage : Stage}
    (fresh : (m.opened r).stage = .involved) (opening : Opening r.trid.gtrid .client stage d)
    (cause : (Task.handle message).Settles r.trid.gtrid d.phase) :
    Turn g (.handle message) (m.part g todo)
      ((m.put r.trid.gtrid { m.admitted r with stage }).part g ([.start d] ++ todo)) := by
  refine turn_put_start (by cases opening <;> rfl) fun hg => ?_
  refine .begun (fresh_of_opened todo hg fresh) (.inl ⟨message, rfl⟩) ?_ ?_ ?_ ?_
  · rw [← hg]
    exact opening
  · exact prepared_opened todo hg
  · exact asResource_opened todo hg
  · rw [← hg]
    exact cause

/-- A transaction whose participants are listed is opened, or changed as
little as its stage allows. -/
theorem turn_listed (trid : Trid) {message : Message}
    (stage : t.stage = (m.transactions.opened trid m.clock).stage)
    (prepared : t.prepared = (m.transactions.opened trid m.clock).prepared)
    (asResource : t.asResource = (m.transactions.opened trid m.clock).asResource)
    (branches : t.stage ≠ .involved → t.branches = (m.transactions.opened trid m.clock).branches) :
    Turn g (.handle message) (m.part g todo) ((m.put trid.gtrid t).part g todo) := by
  refine turn_put fun hg => ?_
  unfold Table.opened at stage prepared asResource branches
  rw [hg] at stage prepared asResource branches
  cases found : m.transactions.get? g with
  | none =>
    rw [found] at stage prepared asResource
    unfold part
    rw [found]
    exact .opened stage prepared asResource
  | some t₀ =>
    rw [found] at stage prepared asResource branches
    rw [part_of_found found]
    refine .changed stage prepared asResource fun late => branches ?_
    rw [stage]
    exact late

theorem turn_joined (r : BranchNotice) :
    Turn g (.handle (.involvedRequest r)) (m.part g todo) ((m.put r.trid.gtrid (m.joined r)).part g todo) := by
  have hs := stage_joined (m := m) r
  refine turn_listed r.trid hs ?_ ?_ fun late => ?_
  · unfold joined opened
    simp only
    split <;> rfl
  · unfold joined opened
    simp only
    split <;> rfl
  · rw [hs] at late
    unfold joined
    simp only [late, if_false]
    rfl

theorem turn_joinedBy (r : ExternalInvolved) (id : ResourceId) :
    Turn g (.handle (.externalInvolved r)) (m.part g todo) ((m.put r.trid.gtrid (m.joinedBy r id)).part g todo) := by
  have hs : (m.joinedBy r id).stage = (m.transactions.opened r.trid m.clock).stage := by
    unfold joinedBy
    simp only
    split <;> rfl
  refine turn_listed r.trid hs ?_ ?_ fun late => ?_
  · unfold joinedBy
    simp only
    split <;> rfl
  · unfold joinedBy
    simp only
    split <;> rfl
  · rw [hs] at late
    unfold joinedBy
    simp only [late, if_false]

/-! ### Groups -/

section Settle

variable {phase : Phase} {x : Correlation} {p : Outstanding} {rest : WaitingGroup}

/-- A group settles a request, as `e` notes; nothing else about the
transaction changes, `m₁` is the manager with the effect noted. -/
theorem part_settle {m₁ : Manager} (hc : m₁.coordinators = m.coordinators) {e : Effect}
    (he : m₁.part g todo = (m.note e).part g todo) (note : Outstanding → WaitingGroup → WaitingGroup)
    (keeps : ∀ p group, (note p group).token = group.token)
    (waits : (m.coordinators.get phase).find? x = some (p, rest)) (own : rest.token.global = g) :
    ∃ group J, group.take? x = some (p, rest) ∧
      m.part g todo = ⟨m.transactions.get? g, .waiting phase group ::ₘ J, m.story g⟩ ∧
      (m₁.withCoordinator phase ((m.coordinators.get phase).settle x note).1).part g
          (toFinish ((m.coordinators.get phase).settle x note).2 ++ todo) =
        ⟨m.transactions.get? g, Job.ofGroup phase (note p rest) ::ₘ J, (e.deed? g).toList ++ m.story g⟩ := by
  rw [part_note] at he
  have hentry : m₁.transactions.get? g = m.transactions.get? g := congrArg Part.entry he
  have hjobs : m₁.jobs g todo = m.jobs g todo := congrArg Part.jobs he
  have hstory : m₁.story g = (e.deed? g).toList ++ m.story g := congrArg Part.story he
  rw [← hc] at waits
  obtain ⟨group, J, htake, hold, hnew⟩ := jobs_settle_self todo waits own (keeps p rest)
  rw [hjobs] at hold
  rw [hc] at hnew
  refine ⟨group, J, htake, ?_, ?_⟩
  · unfold part
    rw [hold]
  · rw [← hentry, ← hstory, ← hnew]
    rfl

theorem part_settle_of_ne {m₁ : Manager} (hc : m₁.coordinators = m.coordinators)
    (he : m₁.part g todo = m.part g todo) (note : Outstanding → WaitingGroup → WaitingGroup)
    (keeps : ∀ p group, (note p group).token = group.token)
    (waits : (m.coordinators.get phase).find? x = some (p, rest)) (other : rest.token.global ≠ g) :
    (m₁.withCoordinator phase ((m.coordinators.get phase).settle x note).1).part g
        (toFinish ((m.coordinators.get phase).settle x note).2 ++ todo) = m.part g todo := by
  rw [← hc] at waits ⊢
  have hj := jobs_settle_of_ne todo waits other (keeps p rest)
  rw [← he]
  unfold part
  rw [hj]
  rfl

theorem part_settle_none {m₁ : Manager} (hc : m₁.coordinators = m.coordinators)
    (he : m₁.part g todo = m.part g todo) (note : Outstanding → WaitingGroup → WaitingGroup)
    (nobody : (m.coordinators.get phase).find? x = none) :
    (m₁.withCoordinator phase ((m.coordinators.get phase).settle x note).1).part g
        (toFinish ((m.coordinators.get phase).settle x note).2 ++ todo) = m.part g todo := by
  rw [← hc] at nobody ⊢
  have hj := jobs_settle_none (g := g) todo note nobody
  rw [← he]
  unfold part
  rw [hj]
  rfl

end Settle

theorem Handles.turn {message : Message} (hd : Handles m message m' new) (g : Gtrid) (todo : List Task) :
    Turn g (.handle message) (m.part g todo) (m'.part g (new ++ todo)) := by
  cases hd with
  | commitLate => simpa using .rest
  | commitNothing fresh =>
    rw [List.nil_append, part_deliver]
    exact turn_drop fun hg => .dropped (fresh_of_opened todo hg fresh)
  | commitOnePhase fresh => exact turn_begun fresh .onePhase (.commit rfl)
  | commitTwoPhase fresh => exact turn_begun fresh .twoPhase (.commit rfl)
  | rollbackLate => simpa using .rest
  | rollback fresh => exact turn_begun fresh .rollback (.rollback rfl)
  | involved =>
    rw [List.nil_append, part_deliver]
    exact turn_joined _
  | involvedNothing fresh =>
    rw [stage_joined] at fresh
    rw [List.nil_append, part_deliver]
    exact turn_drop fun hg => .dropped (fresh_of_opened todo hg fresh)
  | @answered side phase r p group waits =>
    have hc : ((m.noteReply r).note (.answered group.token.global phase r)).coordinators = m.coordinators :=
      coordinators_noteReply m r
    by_cases own : group.token.global = g
    · have he : ((m.noteReply r).note (.answered group.token.global phase r)).part g todo =
          (m.note (.answered group.token.global phase r)).part g todo := by
        rw [part_note, part_note, part_noteReply]
      have hdeed : (Effect.deed? g (.answered group.token.global phase r)).toList = [.answered phase r] := by
        simp [Effect.deed?, own]
      obtain ⟨_, _, htake, hold, hnew⟩ := part_settle hc he
        (fun _ group => { group with replies := group.replies ++ [r] }) (fun _ _ => rfl) waits own
      rw [hdeed] at hnew
      rw [hold]
      exact turn_to (.answered htake) hnew
    · have he : ((m.noteReply r).note (.answered group.token.global phase r)).part g todo = m.part g todo := by
        rw [part_note, part_noteReply]
        simp [Effect.deed?, own]
      exact turn_of_eq (part_settle_of_ne hc he _ (fun _ _ => rfl) waits own)
  | unexpected nobody => exact turn_of_eq (part_settle_none (coordinators_noteReply m _) (part_noteReply _) _ nobody)
  | ready => simpa using .rest
  | configured takes => 
    rw [List.nil_append, part_deliver]
    exact .rest
  | @externalInvolved r registry id takes => exact turn_joinedBy (m := { m with registry }) (g := g) r id
  | domainRefused => simpa using .rest
  | domainNothing found accepted fresh =>
    rw [List.nil_append, part_deliver]
    refine turn_drop fun hg => ?_
    subst hg
    rw [part_of_found found]
    exact .dropped (by simpa using fresh)
  | domainPrepare found fresh =>
    refine turn_put_start rfl fun hg => ?_
    subst hg
    rw [part_of_found found]
    exact .begunForDomain rfl (by decide) fresh .twoPhase rfl rfl
  | domainCommit found waits prepared =>
    refine turn_put_start rfl fun hg => ?_
    subst hg
    rw [part_of_found found]
    exact .domainCommit rfl waits prepared
  | domainOnePhase found fresh =>
    refine turn_put_start rfl fun hg => ?_
    subst hg
    rw [part_of_found found]
    exact .begunForDomain rfl (by decide) fresh .onePhase rfl rfl
  | domainTwoPhase found fresh =>
    refine turn_put_start rfl fun hg => ?_
    subst hg
    rw [part_of_found found]
    exact .begunForDomain rfl (by decide) fresh .twoPhase rfl rfl
  | domainRollback found undecided =>
    refine turn_put_start rfl fun hg => ?_
    subst hg
    rw [part_of_found found]
    exact .domainRollback rfl undecided
  | instanceExited =>
    rw [part_append_none fun _ => job?_toMiss]
    exact .rest
  | ownerExited =>
    rw [part_append_none (by simp [Task.job?])]
    exact .rest
  | shown => simpa using .rest
  | passedOver => exact .rest

/-! ### Phases that are complete -/

theorem part_finish_self (done : Completed ResourceReply Continuation) (own : done.token.global = g)
    (found : m.transactions.get? g = some t) :
    m.part g (.finish done :: todo) = ⟨some t, .finishing done ::ₘ m.jobs g todo, m.story g⟩ := by
  have hj : (Task.finish done).job? g = some (.finishing done) := by simp [Task.job?, own]
  rw [part_cons_some hj, part_of_found found]

theorem part_finish_of_ne (done : Completed ResourceReply Continuation) (other : done.token.global ≠ g) :
    m.part g (.finish done :: todo) = m.part g todo :=
  part_cons_none (by simp [Task.job?, other])

/-- A phase ends a transaction. -/
theorem turn_settled {done : Completed ResourceReply Continuation} {j : Journal} (own : done.token.global = g')
    (found : m.transactions.get? g' = some t)
    (final : (∀ g₀ driver, done.token ≠ .prepare g₀ driver) ∨ vote done.replies (!done.failed.isEmpty) = .readOnly) :
    Turn g (.finish done) (m.part g (.finish done :: todo)) ((m.drop g' j).part g todo) := by
  by_cases hg : g' = g
  · subst hg
    rw [part_finish_self done own found, part_drop_self]
    exact .settled final
  · rw [part_finish_of_ne done (by rw [own]; exact hg), part_drop_of_ne hg]
    exact .rest

theorem part_flushes (hn : ∀ task ∈ new, task = .flush) : m.part g (new ++ todo) = m.part g todo :=
  part_append_none fun task ht => by rw [hn task ht]; rfl

/-- A transaction that goes on record under its own global id. -/
theorem part_logged {t' : Transaction} (own : t.global = g') (j : Journal) :
    ((m.record t j).put g' t').part g todo =
      if g' = g then ⟨some t', m.jobs g todo, .logged (.ofTransaction t) :: m.story g⟩ else m.part g todo := by
  split
  · rename_i hg
    subst hg
    rw [part_put_self, part_record_self own]
    rfl
  · rename_i hg
    rw [part_put_of_ne hg, part_record_of_ne (by rw [own]; exact hg)]

theorem Finishes.turn {done : Completed ResourceReply Continuation} (sound : m.Sound) (hd : Finishes m done m' new)
    (g : Gtrid) (todo : List Task) :
    Turn g (.finish done) (m.part g (.finish done :: todo)) (m'.part g (new ++ todo)) := by
  cases hd with
  | gone absent =>
    by_cases own : done.token.global = g
    · have hj : (Task.finish done).job? g = some (.finishing done) := by simp [Task.job?, own]
      rw [part_cons_some hj]
      subst own
      unfold part
      simp only [absent, List.nil_append]
      exact .gone
    · rw [part_finish_of_ne done own]
      exact .rest
  | rolledBack found =>
    rw [List.nil_append, part_answer]
    exact turn_settled rfl found (.inl (by simp))
  | committed found =>
    rw [List.nil_append, part_answer]
    exact turn_settled rfl found (.inl (by simp))
  | committedGated found forgets then_ =>
    rw [part_flushes fun _ => eq_flush_of_mem_toFlushFor, then_, part_enqueue]
    exact turn_settled rfl found (.inl (by simp))
  | nothingToCommit found idle =>
    rw [List.nil_append, part_answer]
    exact turn_settled rfl found (.inr idle)
  | @preparedForClient g' replies failed t t' j _ found agreed left logs then_ =>
    have own : t'.global = g' := by
      rw [left]
      exact (sound.fits g' t found).global
    rw [part_flushes fun _ => eq_flush_of_mem_toFlushFor, then_, part_enqueue]
    by_cases hg : g' = g
    · subst hg
      rw [part_finish_self (g := g') ⟨.prepare g' .client, replies, failed⟩ rfl found, part_hold_self (g := g') rfl, part_logged own, if_pos rfl, left]
      exact .agreed agreed (by simp)
    · rw [part_finish_of_ne ⟨.prepare g' .client, replies, failed⟩ hg, part_hold_of_ne hg, part_logged own, if_neg hg]
      exact .rest
  | @preparedForDomain g' replies failed t t' j _ found agreed left logs then_ =>
    have own : t'.global = g' := by
      rw [left]
      exact (sound.fits g' t found).global
    rw [part_flushes fun _ => eq_flush_of_mem_toFlushFor, then_, part_enqueue]
    by_cases hg : g' = g
    · subst hg
      rw [part_finish_self (g := g') ⟨.prepare g' (.domain false), replies, failed⟩ rfl found, part_logged own, if_pos rfl, left]
      exact .agreedForDomain agreed
    · rw [part_finish_of_ne ⟨.prepare g' (.domain false), replies, failed⟩ hg, part_logged own, if_neg hg]
      exact .rest
  | @preparedOnePhase g' replies failed t t' j _ found agreed left logs then_ =>
    have own : t'.global = g' := by
      rw [left]
      exact (sound.fits g' t found).global
    rw [part_flushes fun _ => eq_flush_of_mem_toFlush, then_]
    by_cases hg : g' = g
    · subst hg
      rw [part_finish_self (g := g') ⟨.prepare g' (.domain true), replies, failed⟩ rfl found, part_hold_self (g := g') rfl, part_logged own, if_pos rfl, left]
      exact .agreed agreed (by simp)
    · rw [part_finish_of_ne ⟨.prepare g' (.domain true), replies, failed⟩ hg, part_hold_of_ne hg, part_logged own, if_neg hg]
      exact .rest
  | @opposedForDomain g' replies failed t found active opposed =>
    rw [List.nil_append, part_answer]
    by_cases hg : g' = g
    · subst hg
      rw [part_finish_self (g := g') ⟨.prepare g' (.domain false), replies, failed⟩ rfl found, part_put_self]
      exact .opposedForDomain
    · rw [part_finish_of_ne ⟨.prepare g' (.domain false), replies, failed⟩ hg, part_put_of_ne hg]
      exact .rest
  | @opposed g' driver replies failed t found active opposed ours =>
    have hstart (g₁ : Gtrid) : Task.job? g₁
        (.start ⟨g', .rollback, .none, .rollback g' driver (some (vote replies (!failed.isEmpty)))⟩) =
          if g' = g₁ then
            some (.starting ⟨g', .rollback, .none, .rollback g' driver (some (vote replies (!failed.isEmpty)))⟩)
          else none := rfl
    rw [List.singleton_append]
    by_cases hg : g' = g
    · subst hg
      rw [part_finish_self (g := g') ⟨.prepare g' driver, replies, failed⟩ rfl found, part_cons_some ((hstart g').trans (if_pos rfl)), part_put_self]
      exact .opposed active opposed ours
    · rw [part_finish_of_ne ⟨.prepare g' driver, replies, failed⟩ hg, part_cons_none ((hstart g).trans (if_neg hg)), part_put_of_ne hg]
      exact .rest

/-- Every task is a turn for every transaction. -/
theorem Does.turn (sound : m.Sound) (tidy : m.Tidy (task :: todo)) (hd : Does m task m' new) (g : Gtrid) :
    Turn g task (m.part g (task :: todo)) (m'.part g (new ++ todo)) := by
  cases hd with
  | handle hd =>
    rw [part_cons_none rfl]
    exact hd.turn g todo
  | finish hd => exact hd.turn sound g todo
  | @startNothing d absent =>
    by_cases own : d.global = g
    · have hj : (Task.start d).job? g = some (.starting d) := by simp [Task.job?, own]
      rw [part_cons_some hj]
      subst own
      unfold part
      simp only [absent, List.nil_append]
      exact .startNothing
    · rw [part_cons_none (by simp [Task.job?, own])]
      exact .rest
  | @startAlone d t found alone =>
    have named : d.token.global = d.global := tidy.starts d List.mem_cons_self
    rw [List.singleton_append]
    by_cases own : d.global = g
    · have hj : (Task.start d).job? g = some (.starting d) := by simp [Task.job?, own]
      subst own
      rw [part_cons_some hj, part_finish_self ⟨d.token, [], []⟩ named found, part_of_found found]
      exact .startAlone alone
    · rw [part_cons_none (by simp [Task.job?, own]), part_finish_of_ne ⟨d.token, [], []⟩ (by rw [named]; exact own)]
      exact .rest
  | @start d t c found active waits =>
    have named : d.token.global = d.global := tidy.starts d List.mem_cons_self
    have hgtrid := (sound.fits _ t found).gtrid_participants
    have hc : c = ((m.coordinators.get d.phase).register d.token (outstanding m.lastCorrelation t.participants)).1 := by
      rw [waits]
    rw [hc, List.nil_append]
    by_cases own : d.global = g
    · have hj : (Task.start d).job? g = some (.starting d) := by simp [Task.job?, own]
      subst own
      rw [part_cons_some hj, part_of_found found, part_start_self (tidy.numbered d.phase) d.flags active named hgtrid,
        part_of_found found]
      exact .started active
    · rw [part_cons_none (by simp [Task.job?, own]), part_start_of_ne (tidy.numbered d.phase) d.flags active
        (by rw [named]; exact own) fun p hp => by rw [hgtrid p hp]; exact own]
      exact .rest
  | @missed phase x p group waits =>
    rw [part_cons_none rfl]
    by_cases own : group.token.global = g
    · have hdeed : (Effect.deed? g (.missed group.token.global phase x)).toList = [.missed phase x] := by
        simp [Effect.deed?, own]
      obtain ⟨_, _, htake, hold, hnew⟩ := part_settle (e := .missed group.token.global phase x) (by rfl) rfl
        (fun p group => { group with failed := group.failed ++ [p] }) (fun _ _ => rfl) waits own
      rw [hdeed] at hnew
      rw [hold]
      exact turn_to (.missed htake) hnew
    · have he : (m.note (.missed group.token.global phase x)).part g todo = m.part g todo := by
        rw [part_note]
        simp [Effect.deed?, own]
      exact turn_of_eq (part_settle_of_ne (by rfl) he _ (fun _ _ => rfl) waits own)
  | missNothing nobody =>
    rw [part_cons_none rfl]
    exact turn_of_eq (part_settle_none rfl rfl _ nobody)
  | abandon found fresh =>
    rw [part_cons_none rfl]
    refine turn_put_start rfl fun hg => ?_
    subst hg
    rw [part_of_found found]
    exact .begun (by simpa using fresh) (.inr ⟨_, rfl, rfl⟩) .rollback (by simp) (by simp) .abandon
  | flush =>
    rw [part_cons_none rfl, List.append_assoc, List.singleton_append, part_letGo]
    exact .persisted
  | report =>
    rw [part_cons_none rfl, List.nil_append, part_deliver]
    exact .rest
  | _ =>
    rw [part_cons_none rfl]
    exact .rest

end Turns

end Manager

end TwoPhase
