/-
# What single acts do

An act that cannot fail is a change of the manager. The changes are named here
(`Manager.put`, `Manager.drop`, `Manager.askAll`, ...), with one equation per
act that says which change it makes, and the parts of the manager that a
change leaves alone.

Key definitions: `Manager.put`, `Manager.drop`, `Manager.record`,
`Manager.askAll`, `Manager.outstanding`.
Key theorems: `Manager.run_forget`, `Manager.run_startPhase`.
-/
import TwoPhase.Manager.Dispatch
import TwoPhase.Proofs.Known
import TwoPhase.Proofs.Maps

namespace TwoPhase.Manager

/-! ### Changes -/

/-- What handing messages over leaves in the trace. -/
def deliveries (out : List Envelope) (m : Manager) : List Effect :=
  (out.map fun e => .delivered e (!m.blocked.contains e.destination.queue)).reverse

/-- Handing messages over changes nothing but the trace. -/
theorem deliverAll_eq (out : List Envelope) : ∀ m : Manager,
    m.deliverAll out = { m with trace := m.deliveries out ++ m.trace } := by
  induction out with
  | nil => exact fun _ => rfl
  | cons e es ih =>
    intro m
    refine (ih (m.deliver e)).trans ?_
    simp [deliveries, deliver, note]

/-- Put a transaction into the table. -/
def put (g : Gtrid) (t : Transaction) (m : Manager) : Manager :=
  { m with transactions := m.transactions.insert g t }

/-- Drop a transaction; `journal` is the journal once it has forgotten it. -/
def drop (g : Gtrid) (journal : Journal) (m : Manager) : Manager :=
  { m with transactions := m.transactions.erase g, journal }.note (.forgotten g)

@[simp] theorem put_put (g : Gtrid) (t t' : Transaction) (m : Manager) : (m.put g t).put g t' = m.put g t' := by
  simp [put]

@[simp] theorem drop_put (g : Gtrid) (t : Transaction) (journal : Journal) (m : Manager) :
    (m.put g t).drop g journal = m.drop g journal := by
  simp [put, drop, note]

@[simp] theorem registry_put (g : Gtrid) (t : Transaction) (m : Manager) : (m.put g t).registry = m.registry := rfl

theorem get?_put (g : Gtrid) (t : Transaction) (m : Manager) : (m.put g t).transactions.get? g = some t :=
  SortedMap.get?_insert_self m.transactions g t

/-- Putting a transaction into the table and dropping it again touches no other. -/
theorem get?_erase_put_of_ne {g g' : Gtrid} (t : Transaction) (m : Manager) (h : g ≠ g') :
    ((m.put g t).transactions.erase g).get? g' = m.transactions.get? g' := by
  rw [SortedMap.get?_erase_of_ne _ h]
  exact SortedMap.get?_insert_of_ne m.transactions t h

/-- Have a transaction on record as prepared; `journal` is the journal then. -/
def record (t : Transaction) (journal : Journal) (m : Manager) : Manager :=
  { m with journal }.note (.logged (.ofTransaction t))

/-- What is put into the table in between is not seen. -/
@[simp] theorem put_record_put (g : Gtrid) (t t' r : Transaction) (journal : Journal) (m : Manager) :
    ((m.put g t).record r journal).put g t' = (m.record r journal).put g t' := by
  simp [put, record, note]

/-- Hold a phase. -/
def hold (d : Deferred) (m : Manager) : Manager :=
  { m with held := m.held.defer d }

/-- Send a reply to the owner, if there is one. -/
def answer (target : Target) (message : Message) (m : Manager) : Manager :=
  match target.owner with
  | some owner => m.deliver ⟨owner, message⟩
  | none => m

theorem answer_eq (target : Target) (message : Message) (m : Manager) :
    m.answer target message =
      { m with trace := m.deliveries (target.owner.map (⟨·, message⟩)).toList ++ m.trace } := by
  unfold answer
  cases target.owner <;> rfl

/-- Hold a reply to the owner, if there is one. -/
def enqueue (target : Target) (message : Message) (m : Manager) : Manager :=
  match target.owner with
  | some owner => { m with held := m.held.enqueue ⟨owner, message⟩ }
  | none => m

theorem enqueue_eq (target : Target) (message : Message) (m : Manager) :
    m.enqueue target message =
      { m with held := { m.held with replies := m.held.replies ++ (target.owner.map (⟨·, message⟩)).toList } } := by
  unfold enqueue
  cases target.owner with
  | none => simp
  | some _ => rfl

/-- Let go of what is held; `journal` is the journal once it is durable. -/
def letGo (journal : Journal) (m : Manager) : Manager :=
  ({ m with journal, held := m.held.release }.note .persisted).deliverAll m.held.replies

/-- Change the registry and hand over what it wants sent. -/
def withRegistry (change : Registry × List Envelope) (m : Manager) : Manager :=
  { m with registry := change.1 }.deliverAll change.2

/-- The next request of a phase, for a participant. -/
def nextRequest (flags : Flags) (m : Manager) (participant : Trid × ResourceId) : ResourceRequest where
  process := m.process
  correlation := m.lastCorrelation + 1
  trid := participant.1
  resource := participant.2
  flags

/-- Ask a participant. -/
def ask (phase : Phase) (flags : Flags) (m : Manager) (participant : Trid × ResourceId) : Manager :=
  let r := m.nextRequest flags participant
  let change := m.registry.dispatch phase r m.clock
  ({ m with lastCorrelation := m.lastCorrelation + 1, registry := change.1 }.note
    (.dispatched phase r change.2.1)).deliverAll change.2.2

/-- Ask participants, one after the other. -/
def askAll (phase : Phase) (flags : Flags) (m : Manager) (participants : List (Trid × ResourceId)) : Manager :=
  participants.foldl (ask phase flags) m

/-- What is outstanding once participants are asked, and which of their
resources are known; `last` is the correlation that was used last. -/
def asked (registry : Registry) : Correlation → List (Trid × ResourceId) → List (Outstanding × Bool)
  | _, [] => []
  | last, p :: ps => (⟨last + 1, p.2⟩, registry.isKnown p.2) :: asked registry (last + 1) ps

/-- The requests that are outstanding once participants are asked; `last` is
the correlation that was used last. -/
def outstanding : Correlation → List (Trid × ResourceId) → List Outstanding
  | _, [] => []
  | last, p :: ps => ⟨last + 1, p.2⟩ :: outstanding (last + 1) ps

/-- Participants of known resources are all waited for. -/
theorem asked_of_known {registry : Registry} : ∀ {ps : List (Trid × ResourceId)} (last : Correlation),
    (∀ p ∈ ps, registry.isKnown p.2 = true) → asked registry last ps = (outstanding last ps).map fun o => (o, true)
  | [], _, _ => rfl
  | p :: ps, last, h => by
    rw [asked, asked_of_known (last + 1) fun q hq => h q (List.mem_cons_of_mem _ hq), h p List.mem_cons_self]
    rfl

/-- Change the coordinator of a phase. -/
def withCoordinator (phase : Phase) (c : PhaseCoordinator) (m : Manager) : Manager :=
  { m with coordinators := m.coordinators.set c phase }

/-! ### Acts as changes -/

/-- Acts in turn come to an end if each of them does. -/
theorem ok_of_bind {α β : Type} {act : Act α} {f : α → Act β} {m m' : Manager} {b : β}
    (h : (act >>= f).run m = .ok b m') : ∃ a m₁, act.run m = .ok a m₁ ∧ (f a).run m₁ = .ok b m' := by
  rw [EStateM.run_bind] at h
  cases hrun : act.run m with
  | ok a m₁ =>
    rw [hrun] at h
    exact ⟨a, m₁, rfl, h⟩
  | error fault m₁ =>
    rw [hrun] at h
    cases h

@[simp] theorem run_send (m : Manager) (destination : Handle) (message : Message) :
    (send destination message).run m = .ok () (m.deliver ⟨destination, message⟩) := rfl

@[simp] theorem run_find? (m : Manager) (g : Gtrid) :
    (find? g).run m = .ok (m.transactions.get? g) m := rfl

@[simp] theorem run_ensure (m : Manager) (trid : Trid) :
    (ensure trid).run m = .ok () (m.put trid.gtrid (m.transactions.opened trid m.clock)) := by
  unfold ensure
  rw [EStateM.run_modify, Table.ensure_eq_insert]
  rfl

theorem run_update {m : Manager} {g : Gtrid} {t : Transaction} (h : m.transactions.get? g = some t)
    (f : Transaction → Transaction) : (update g f).run m = .ok () (m.put g (f t)) := by
  unfold update
  rw [EStateM.run_modify, SortedMap.modify_eq_insert h]
  rfl

@[simp] theorem run_onCoordinator {α : Type} (m : Manager) (phase : Phase)
    (f : PhaseCoordinator → PhaseCoordinator × α) :
    (onCoordinator phase f).run m =
      .ok (f (m.coordinators.get phase)).2 (m.withCoordinator phase (f (m.coordinators.get phase)).1) := rfl

@[simp] theorem run_onRegistry {α : Type} (m : Manager) (f : Registry → Nat → Registry × α × List Envelope) :
    (onRegistry f).run m =
      .ok (f m.registry m.clock).2.1
        (m.withRegistry ((f m.registry m.clock).1, (f m.registry m.clock).2.2)) := rfl

theorem run_callJournal (m : Manager) (effect : Effect) (call : Journal → Nat → Journal × Option Fault) :
    (callJournal effect call).run m =
      match call m.journal m.clock with
      | (j, none) => .ok () ({ m with journal := j }.note effect)
      | (j, some fault) => .error fault { m with journal := j } := by
  unfold callJournal
  simp only [EStateM.run_bind, EStateM.run_get]
  obtain ⟨j, _ | fault⟩ := call m.journal m.clock <;> rfl

/-- A call of the journal that comes to an end was carried out. -/
theorem ok_callJournal {m m' : Manager} {effect : Effect} {call : Journal → Nat → Journal × Option Fault}
    (h : (callJournal effect call).run m = .ok () m') :
    ∃ j, call m.journal m.clock = (j, none) ∧ m' = { m with journal := j }.note effect := by
  rw [run_callJournal] at h
  rcases hj : call m.journal m.clock with ⟨j, _ | fault⟩
  · rw [hj] at h
    cases h
    exact ⟨j, rfl, rfl⟩
  · rw [hj] at h
    cases h

/-- A transaction is dropped, unless the journal refuses. -/
theorem run_forget (m : Manager) (g : Gtrid) :
    (forget g).run m =
      match m.journal.remove g m.clock with
      | (j, none) => .ok () (m.drop g j)
      | (j, some fault) => .error fault { m with transactions := m.transactions.erase g, journal := j } := by
  unfold forget
  simp only [EStateM.run_bind, EStateM.run_modify, run_callJournal]
  rfl

/-- A transaction goes on record as prepared, unless the journal refuses. -/
theorem run_logPrepared (m : Manager) (t : Transaction) :
    (logPrepared t).run m =
      match m.journal.prepare (.ofTransaction t) m.clock with
      | (j, none) => .ok () (m.record t j)
      | (j, some fault) => .error fault { m with journal := j } :=
  run_callJournal m _ _

@[simp] theorem run_replyNow (m : Manager) (target : Target) (message : Message) :
    (replyNow target message).run m = .ok () (m.answer target message) := by
  unfold replyNow answer
  cases target.owner <;> rfl

/-! ### Starting a phase -/

theorem run_askParticipant (m : Manager) (phase : Phase) (flags : Flags) (p : Trid × ResourceId) :
    (askParticipant phase flags p).run m =
      .ok (⟨m.lastCorrelation + 1, p.2⟩, m.registry.isKnown p.2) (m.ask phase flags p) := by
  have h := m.registry.dispatch_unknown_iff phase (m.nextRequest flags p) m.clock
  show EStateM.Result.ok (_, (m.registry.dispatch phase (m.nextRequest flags p) m.clock).2.1 != .unknown) _ = _
  rw [h]
  rfl

/-- Asking a participant leaves every resource known that was known. -/
theorem sameIds_ask (m : Manager) (phase : Phase) (flags : Flags) (p : Trid × ResourceId) :
    Registry.SameIds m.registry (m.ask phase flags p).registry := by
  simp only [ask, deliverAll_eq]
  exact Registry.sameIds_dispatch m.registry phase (m.nextRequest flags p) m.clock

/-- Asking a participant changes the registry, the correlations and the trace. -/
theorem ask_eq (m : Manager) (phase : Phase) (flags : Flags) (p : Trid × ResourceId) :
    ∃ registry trace, m.ask phase flags p =
      { m with lastCorrelation := m.lastCorrelation + 1, registry, trace } := by
  simp only [ask, deliverAll_eq]
  exact ⟨_, _, rfl⟩

theorem lastCorrelation_ask (m : Manager) (phase : Phase) (flags : Flags) (p : Trid × ResourceId) :
    (m.ask phase flags p).lastCorrelation = m.lastCorrelation + 1 := by
  obtain ⟨_, _, h⟩ := ask_eq m phase flags p
  rw [h]

theorem askAll_eq (phase : Phase) (flags : Flags) : ∀ (ps : List (Trid × ResourceId)) (m : Manager),
    ∃ registry trace, m.askAll phase flags ps =
      { m with lastCorrelation := m.lastCorrelation + ps.length, registry, trace }
  | [], m => ⟨m.registry, m.trace, rfl⟩
  | p :: ps, m => by
    obtain ⟨registry, trace, h⟩ := ask_eq m phase flags p
    obtain ⟨registry', trace', h'⟩ := askAll_eq phase flags ps (m.ask phase flags p)
    refine ⟨registry', trace', h'.trans ?_⟩
    simp [h, Nat.add_assoc, Nat.add_comm 1]

section AskAll

variable (m : Manager) (phase : Phase) (flags : Flags) (ps : List (Trid × ResourceId))

@[simp] theorem transactions_askAll : (m.askAll phase flags ps).transactions = m.transactions := by
  obtain ⟨_, _, h⟩ := askAll_eq phase flags ps m
  rw [h]

@[simp] theorem coordinators_askAll : (m.askAll phase flags ps).coordinators = m.coordinators := by
  obtain ⟨_, _, h⟩ := askAll_eq phase flags ps m
  rw [h]

@[simp] theorem held_askAll : (m.askAll phase flags ps).held = m.held := by
  obtain ⟨_, _, h⟩ := askAll_eq phase flags ps m
  rw [h]

@[simp] theorem journal_askAll : (m.askAll phase flags ps).journal = m.journal := by
  obtain ⟨_, _, h⟩ := askAll_eq phase flags ps m
  rw [h]

@[simp] theorem process_askAll : (m.askAll phase flags ps).process = m.process := by
  obtain ⟨_, _, h⟩ := askAll_eq phase flags ps m
  rw [h]

@[simp] theorem clock_askAll : (m.askAll phase flags ps).clock = m.clock := by
  obtain ⟨_, _, h⟩ := askAll_eq phase flags ps m
  rw [h]

@[simp] theorem lastCorrelation_askAll :
    (m.askAll phase flags ps).lastCorrelation = m.lastCorrelation + ps.length := by
  obtain ⟨_, _, h⟩ := askAll_eq phase flags ps m
  rw [h]

end AskAll

/-- Asking participants leaves every resource known that was known. -/
theorem sameIds_askAll (phase : Phase) (flags : Flags) : ∀ (ps : List (Trid × ResourceId)) (m : Manager),
    Registry.SameIds m.registry (m.askAll phase flags ps).registry
  | [], m => .refl m.registry
  | p :: ps, m => (sameIds_ask m phase flags p).trans (sameIds_askAll phase flags ps (m.ask phase flags p))

theorem asked_congr {r s : Registry} (h : Registry.SameIds r s) (last : Correlation)
    (ps : List (Trid × ResourceId)) : asked s last ps = asked r last ps := by
  induction ps generalizing last with
  | nil => rfl
  | cons p ps ih => rw [asked, asked, h.isKnown, ih]

/-- Asking participants gives what is outstanding, in their order. -/
theorem run_askAll (phase : Phase) (flags : Flags) : ∀ (ps : List (Trid × ResourceId)) (m : Manager),
    (ps.mapM (askParticipant phase flags)).run m =
      .ok (asked m.registry m.lastCorrelation ps) (m.askAll phase flags ps)
  | [], _ => rfl
  | p :: ps, m => by
    rw [List.mapM_cons, EStateM.run_bind, run_askParticipant]
    simp only [EStateM.run_bind, run_askAll phase flags ps, EStateM.run_pure]
    rw [asked_congr (sameIds_ask m phase flags p), lastCorrelation_ask]
    rfl

/-- A phase is started: every participant is asked, and if their resources are
known, all of them are waited for. -/
theorem run_startPhase {m : Manager} {g : Gtrid} {t : Transaction} (phase : Phase) (flags : Flags)
    (token : Continuation) (found : m.transactions.get? g = some t)
    (known : ∀ p ∈ t.participants, m.registry.isKnown p.2 = true) :
    (startPhase g phase flags token).run m =
      let waiting := (m.coordinators.get phase).register token (outstanding m.lastCorrelation t.participants)
      .ok waiting.2 ((m.askAll phase flags t.participants).withCoordinator phase waiting.1) := by
  unfold startPhase
  rw [EStateM.run_bind, run_find?, found]
  have hnone : ((outstanding m.lastCorrelation t.participants).map fun o => (o, true)).filter (!·.2) = [] := by
    simp
  simp only [EStateM.run_bind, run_askAll, run_onCoordinator, coordinators_askAll, asked_of_known _ known, hnone,
    List.map_nil, List.map_map, Function.comp_def, List.map_id', failAll, EStateM.run_pure]

theorem run_startPhase_of_absent {m : Manager} {g : Gtrid} (phase : Phase) (flags : Flags) (token : Continuation)
    (absent : m.transactions.get? g = none) : (startPhase g phase flags token).run m = .ok none m := by
  unfold startPhase
  rw [EStateM.run_bind, run_find?, absent]
  rfl

end TwoPhase.Manager
